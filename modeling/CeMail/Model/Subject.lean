import CeMail.Lib.Words
import CeMail.Model.NodeId

/-!
# Subjects

A reply's subject is that of its parent behind a prefix. `normalizeSubject` strips such
prefixes from the front, one in each turn of its loop, and then collapses white space and
lowers ASCII capitals, so that both come to one text.

A text is the list of its characters. The program cuts it by bytes, which can fail where a
list cannot; `Checked.stripPrefixToken` is the same with the bytes counted.
-/

namespace CeMail

/-- `str::trim_start` -/
def trimStart (cs : List Char) : List Char := cs.dropWhile isWhitespace

/-- `str::to_ascii_lowercase` -/
def toAsciiLowercase (cs : List Char) : List Char := cs.map Char.toLower

@[simp] theorem length_toAsciiLowercase (cs : List Char) :
    (toAsciiLowercase cs).length = cs.length := List.length_map _

theorem toAsciiLowercase_append (cs ds : List Char) :
    toAsciiLowercase (cs ++ ds) = toAsciiLowercase cs ++ toAsciiLowercase ds := List.map_append

/-- Reply and forward prefixes, in the order in which they are tried. -/
def replyPrefixes : List String := ["re", "fwd", "fw", "aw", "sv", "vs"]

/-- Skip a bracketed count, if there is one. -/
def skipCount (rest : List Char) : Option (List Char) :=
  match ['['].isPrefixOf? rest with
  | some after => do
      let close ← after.idxOf? ']'
      if (after.take close).all Char.isDigit then some (after.drop (close + 1)) else none
  | none => some rest

/--
If `lower`, the lowered `orig`, begins with `p`, an optional count and a colon: what stands
behind them in `orig`.
-/
def stripPrefixToken (lower orig : List Char) (p : String) : Option (List Char) := do
  let rest ← p.toList.isPrefixOf? lower
  let rest ← skipCount rest
  let rest ← [':'].isPrefixOf? rest
  some (trimStart (orig.drop (orig.length - rest.length)))

/-- One turn of the loop: what stands behind the first prefix that can be stripped. -/
def stripTurn (s : List Char) : Option (List Char) :=
  replyPrefixes.findSome? (stripPrefixToken (toAsciiLowercase s) s)

/-! ## Each turn makes the text shorter -/

/-- Nothing, or digits in brackets. -/
def IsCount (count : List Char) : Prop :=
  count = [] ∨ ∃ digits, (∀ d ∈ digits, d.isDigit) ∧ count = '[' :: digits ++ [']']

/-- What is skipped in front of a colon is a count. -/
theorem skipCount_colon_eq_some {rest tail : List Char} :
    (skipCount rest).bind [':'].isPrefixOf? = some tail
      ↔ ∃ count, IsCount count ∧ rest = count ++ ':' :: tail := by
  refine ⟨?_, ?_⟩
  · intro h
    obtain ⟨rest', hskip, hcolon⟩ := Option.bind_eq_some_iff.mp h
    obtain rfl : ':' :: tail = rest' := List.isPrefixOf?_eq_some_iff_append_eq.mp hcolon
    unfold skipCount at hskip
    split at hskip
    · rename_i after hopen
      obtain rfl : '[' :: after = rest := List.isPrefixOf?_eq_some_iff_append_eq.mp hopen
      obtain ⟨close, hclose, hdigits⟩ := Option.bind_eq_some_iff.mp hskip
      obtain ⟨digits, m, rfl, -, rfl⟩ := Words.exists_cut_of_idxOf? hclose
      rw [List.take_left, Option.ite_none_right_eq_some] at hdigits
      obtain ⟨hall, hrest⟩ := hdigits
      refine ⟨_, Or.inr ⟨digits, List.all_eq_true.mp hall, rfl⟩, ?_⟩
      rw [List.drop_length_add_append] at hrest
      simpa using Option.some.inj hrest
    · obtain rfl := Option.some.inj hskip
      exact ⟨[], Or.inl rfl, rfl⟩
  · rintro ⟨count, hcount, rfl⟩
    refine Option.bind_eq_some_iff.mpr ⟨':' :: tail, ?_, rfl⟩
    rcases hcount with rfl | ⟨digits, hdigits, rfl⟩
    · rfl
    · have hnot : ']' ∉ digits := fun h => by simpa using hdigits _ h
      have hopen : ['['].isPrefixOf? ('[' :: digits ++ [']'] ++ ':' :: tail)
          = some (digits ++ ']' :: ':' :: tail) := by
        simp
      simp only [skipCount, hopen]
      refine Option.bind_eq_some_iff.mpr ⟨_, Words.idxOf?_append_cons hnot _, ?_⟩
      rw [List.take_left, if_pos (List.all_eq_true.mpr hdigits), List.drop_length_add_append]
      rfl

/-- What stands behind a token of the prefix `p`, in a lowered text. -/
def tokenRest (lower : List Char) (p : String) : Option (List Char) :=
  (p.toList.isPrefixOf? lower).bind fun rest => (skipCount rest).bind [':'].isPrefixOf?

theorem tokenRest_eq_some {lower rest : List Char} {p : String} :
    tokenRest lower p = some rest
      ↔ ∃ count, IsCount count ∧ lower = p.toList ++ count ++ [':'] ++ rest := by
  rw [tokenRest, Option.bind_eq_some_iff]
  simp only [skipCount_colon_eq_some, List.isPrefixOf?_eq_some_iff_append_eq]
  refine ⟨?_, ?_⟩
  · rintro ⟨_, rfl, count, hcount, rfl⟩
    exact ⟨count, hcount, by simp⟩
  · rintro ⟨count, hcount, rfl⟩
    exact ⟨_, by simp, count, hcount, rfl⟩

/-- The token is found in the lowered text, and cut off as much of the text itself. -/
theorem stripPrefixToken_eq_map (lower orig : List Char) (p : String) :
    stripPrefixToken lower orig p
      = (tokenRest lower p).map fun rest => trimStart (orig.drop (orig.length - rest.length)) := by
  simp only [stripPrefixToken, tokenRest, Option.bind_eq_bind, Option.map_eq_bind,
    Option.bind_assoc]
  rfl

/-- **A prefix is stripped exactly when the text begins with it**, a count and a colon. -/
theorem stripPrefixToken_eq_some {s rest : List Char} {p : String} :
    stripPrefixToken (toAsciiLowercase s) s p = some rest ↔
      ∃ token tail count, s = token ++ tail ∧ IsCount count
        ∧ toAsciiLowercase token = p.toList ++ count ++ [':'] ∧ rest = trimStart tail := by
  rw [stripPrefixToken_eq_map, Option.map_eq_some_iff]
  simp only [tokenRest_eq_some]
  refine ⟨?_, ?_⟩
  · rintro ⟨lowerTail, ⟨count, hcount, hlower⟩, rfl⟩
    -- what was read of the lowered text stands for as much of the text itself
    obtain ⟨token, tail, rfl, htoken, rfl⟩ : ∃ token tail, s = token ++ tail
        ∧ toAsciiLowercase token = p.toList ++ count ++ [':']
        ∧ toAsciiLowercase tail = lowerTail := by
      exact List.map_eq_append_iff.mp hlower
    refine ⟨token, tail, count, rfl, hcount, htoken, ?_⟩
    rw [length_toAsciiLowercase, List.length_append, Nat.add_sub_cancel, List.drop_left]
  · rintro ⟨token, tail, count, rfl, hcount, htoken, rfl⟩
    refine ⟨toAsciiLowercase tail, ⟨count, hcount, ?_⟩, ?_⟩
    · rw [toAsciiLowercase_append, htoken]
    · rw [length_toAsciiLowercase, List.length_append, Nat.add_sub_cancel, List.drop_left]

theorem length_stripTurn {s rest : List Char} (h : stripTurn s = some rest) :
    rest.length < s.length := by
  obtain ⟨p, -, hp⟩ := List.exists_of_findSome?_eq_some h
  obtain ⟨token, tail, count, rfl, -, htoken, rfl⟩ := stripPrefixToken_eq_some.mp hp
  have hlen := congrArg List.length htoken
  have htrim := (List.dropWhile_sublist isWhitespace (l := tail)).length_le
  simp only [length_toAsciiLowercase, List.length_append, List.length_singleton] at hlen
  rw [trimStart, List.length_append]
  omega

/-- The loop of `normalize_subject`. -/
def stripPrefixes (s : List Char) : List Char :=
  match _ : stripTurn s with
  | some rest => stripPrefixes rest
  | none => s
termination_by s.length
decreasing_by exact length_stripTurn ‹_›

/-- Normalize a subject for threading by subject. -/
def normalizeSubject (subject : String) : String :=
  .ofList (toAsciiLowercase (Words.collapse isWhitespace ' '
    (stripPrefixes (trim subject).toList)))

example : normalizeSubject "Re: RE[2]: Quarterly \t Review" = "quarterly review" := by
  decide +kernel

example : normalizeSubject "Re[x]: Reminder" = "re[x]: reminder" := by decide +kernel

end CeMail
