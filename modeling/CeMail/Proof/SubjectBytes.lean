import CeMail.Lib.Loop
import CeMail.Model.Panics
import CeMail.Proof.Subject

/-!
# Cutting subjects by bytes

`strip_prefix_token` looks for a prefix in the lowered subject and cuts the subject itself at
the place it found, counted in bytes from the end. Lowering ASCII letters changes the number
of bytes of no character, so the place is between the same two characters in both; the
closing bracket takes one byte, so there is a place behind it as well. No slice fails, and the
checked functions are the plain ones.
-/

namespace CeMail

theorem utf8Size_toLower (c : Char) : c.toLower.utf8Size = c.utf8Size := by
  by_cases hc : c.isUpper
  · obtain ⟨hbounds, hlower⟩ := toNat_toLower hc
    have hone : ∀ {d : Char}, d.toNat ≤ 0x7F → d.utf8Size = 1 := fun h =>
      Char.utf8Size_eq_one_iff.mpr (UInt32.le_iff_toNat_le.mpr h)
    rw [hone (by omega), hone (by omega)]
  · rw [Char.toLower_eq_of_not_isUpper hc]

theorem byteLen_toAsciiLowercase (cs : List Char) :
    Utf8.byteLen (toAsciiLowercase cs) = Utf8.byteLen cs := by
  rw [Utf8.byteLen, toAsciiLowercase, List.map_map]
  exact congrArg List.sum (List.map_congr_left fun c _ => utf8Size_toLower c)

namespace Checked

theorem sliceTo_append (cs ds : List Char) : sliceTo (cs ++ ds) (Utf8.byteLen cs) = .ok cs := by
  rw [sliceTo, Utf8.front_append]

theorem sliceFrom_append (cs ds : List Char) : sliceFrom (cs ++ ds) (Utf8.byteLen cs) = .ok ds := by
  rw [sliceFrom, Utf8.back_append]

/-- A count is skipped without a slice that fails. -/
theorem skipCount_eq (rest : List Char) : skipCount rest = .ok (CeMail.skipCount rest) := by
  unfold skipCount CeMail.skipCount
  cases ['['].isPrefixOf? rest with
  | none => rfl
  | some after =>
      dsimp only
      cases hclose : after.idxOf? ']' with
      | none =>
          rw [Utf8.find, hclose]
          rfl
      | some close =>
          obtain ⟨count, m, rfl, -, rfl⟩ := Words.exists_cut_of_idxOf? hclose
          have hbehind : Utf8.byteLen count + 1 = Utf8.byteLen (count ++ [']']) := by
            rw [Utf8.byteLen_append]
            rfl
          have hfrom : sliceFrom (count ++ ']' :: m) (Utf8.byteLen count + 1) = .ok m := by
            rw [hbehind, List.append_cons, sliceFrom_append]
          have hdrop : (count ++ ']' :: m).drop (count.length + 1) = m := by
            rw [List.drop_length_add_append]
            rfl
          have hplain : (do
              let close ← some count.length
              if ((count ++ ']' :: m).take close).all Char.isDigit then
                some ((count ++ ']' :: m).drop (close + 1)) else none)
                = if count.all Char.isDigit then some m else none := by
            simp only [Option.bind_eq_bind, Option.bind_some, List.take_left, hdrop]
          rw [Utf8.find, hclose, Option.map_some, List.take_left, hplain]
          dsimp only
          rw [sliceTo_append, hfrom]
          cases hdigits : count.all Char.isDigit <;> simp [hdigits, bind, Except.bind]

/-- The token is found as it is by the plain function, and then cut off by bytes. -/
theorem stripPrefixToken_eq_match (checks : Bool) (lower orig : List Char) (p : String) :
    stripPrefixToken checks lower orig p = match tokenRest lower p with
      | none => .ok none
      | some rest => (do
          let consumed ← sub checks (Utf8.byteLen orig) (Utf8.byteLen rest)
          let rest ← sliceFrom orig consumed
          .ok (some (trimStart rest))) := by
  unfold stripPrefixToken tokenRest
  cases p.toList.isPrefixOf? lower with
  | none => rfl
  | some rest =>
      rw [Option.bind_some]
      dsimp only
      rw [skipCount_eq]
      cases CeMail.skipCount rest with
      | none => rfl
      | some behind =>
          rw [Option.bind_some]
          show (match [':'].isPrefixOf? behind with
            | none => _
            | some rest => _) = _
          rfl

/-- **A token is stripped without a slice that fails.** -/
theorem stripPrefixToken_eq (checks : Bool) (s : List Char) (p : String) :
    stripPrefixToken checks (toAsciiLowercase s) s p
      = .ok (CeMail.stripPrefixToken (toAsciiLowercase s) s p) := by
  rw [stripPrefixToken_eq_match, stripPrefixToken_eq_map]
  cases hrest : tokenRest (toAsciiLowercase s) p with
  | none => rfl
  | some lowerTail =>
      obtain ⟨count, -, hlower⟩ := tokenRest_eq_some.mp hrest
      obtain ⟨token, tail, rfl, -, rfl⟩ := List.map_eq_append_iff.mp hlower
      -- as many bytes are left of the text as of the lowered one
      have hsub : sub checks (Utf8.byteLen (token ++ tail))
          (Utf8.byteLen (tail.map Char.toLower)) = .ok (Utf8.byteLen token) := by
        rw [← toAsciiLowercase, byteLen_toAsciiLowercase, Utf8.byteLen_append, sub,
          if_pos (Nat.le_add_left _ _), Nat.add_sub_cancel]
      have hdrop : (token ++ tail).drop ((token ++ tail).length - (tail.map Char.toLower).length)
          = tail := by
        rw [List.length_map, List.length_append, Nat.add_sub_cancel, List.drop_left]
      rw [Option.map_some, hdrop]
      dsimp only
      rw [hsub]
      show (do
        let rest ← sliceFrom (token ++ tail) (Utf8.byteLen token)
        .ok (some (trimStart rest))) = _
      rw [sliceFrom_append]
      rfl

theorem stripFirst_eq (checks : Bool) (s : List Char) (ps : List String) :
    stripFirst checks (toAsciiLowercase s) s ps
      = .ok (ps.findSome? (CeMail.stripPrefixToken (toAsciiLowercase s) s)) := by
  induction ps with
  | nil => rfl
  | cons p ps ih =>
      rw [stripFirst, stripPrefixToken_eq, List.findSome?_cons, ih]
      cases CeMail.stripPrefixToken (toAsciiLowercase s) s p <;> rfl

theorem normalizeTurn_eq (checks : Bool) (s : List Char) :
    normalizeTurn checks s = match stripTurn s with
      | some rest => .inl rest
      | none => .inr (.ok s) := by
  rw [normalizeTurn, stripFirst_eq, ← stripTurn]
  cases stripTurn s <;> rfl

/-- The loop breaks with what the plain one ends in. -/
theorem solves_normalizeTurn (checks : Bool) :
    Loop.Solves (normalizeTurn checks) List.length fun s => .ok (stripPrefixes s) where
  goesOn {s s'} h := by
    rw [normalizeTurn_eq] at h
    split at h
    · rename_i rest hturn
      obtain rfl := Sum.inl.inj h
      exact ⟨length_stripTurn hturn, congrArg _ (stripPrefixes_of_some hturn).symm⟩
    · cases h
  breaks {s b} h := by
    rw [normalizeTurn_eq] at h
    split at h
    · cases h
    · rename_i hturn
      obtain rfl := Sum.inr.inj h
      rw [stripPrefixes_of_none hturn]

end Checked

/-- What is stripped is the front of the text, and more than the prefix. -/
theorem suffix_of_stripPrefixToken {s rest : List Char} {p : String}
    (h : stripPrefixToken (toAsciiLowercase s) s p = some rest) :
    rest <:+ s ∧ Utf8.byteLen rest + p.utf8ByteSize + 1 ≤ Utf8.byteLen s := by
  obtain ⟨token, tail, count, rfl, -, htoken, rfl⟩ := stripPrefixToken_eq_some.mp h
  have htrim : trimStart tail <:+ tail := List.dropWhile_suffix isWhitespace
  refine ⟨htrim.trans (List.suffix_append token tail), ?_⟩
  have hlen := congrArg Utf8.byteLen htoken
  rw [byteLen_toAsciiLowercase, Utf8.byteLen_append, Utf8.byteLen_append, Utf8.byteLen_toList]
    at hlen
  obtain ⟨pad, hpad⟩ := htrim
  have hsum := congrArg Utf8.byteLen hpad
  rw [Utf8.byteLen_append] at hsum
  have hcolon : Utf8.byteLen [':'] = 1 := rfl
  rw [Utf8.byteLen_append]
  omega

/--
**Stripping is safe on every subject.** No slice of `strip_prefix_token` fails, for any
prefix; what it returns is the end of the subject, shorter by the prefix and a colon at
least; and the loop of `normalize_subject` breaks, within one turn more than the subject has
characters.
-/
theorem stripPrefixToken_safe (checks : Bool) (orig : String) :
    (∀ p : String, ∃ result,
      Checked.stripPrefixToken checks (toAsciiLowercase orig.toList) orig.toList p = .ok result
        ∧ ∀ rest ∈ result, rest <:+ orig.toList
          ∧ Utf8.byteLen rest + p.utf8ByteSize + 1 ≤ orig.utf8ByteSize)
      ∧ Loop.run (Checked.normalizeTurn checks) (orig.toList.length + 1) orig.toList
        = some (.ok (stripPrefixes orig.toList)) := by
  refine ⟨?_, (Checked.solves_normalizeTurn checks).run_eq (Nat.lt_succ_self _)⟩
  intro p
  refine ⟨_, Checked.stripPrefixToken_eq checks orig.toList p, ?_⟩
  intro rest hrest
  rw [← Utf8.byteLen_toList orig]
  exact suffix_of_stripPrefixToken hrest

end CeMail
