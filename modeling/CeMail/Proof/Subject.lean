import CeMail.Model.Subject

/-!
# Normal subjects

No token that the loop strips has white space in it. So collapsing white space brings none to
the front that the loop did not meet, and lowering brings none either, since the loop reads
lowered text already: what comes out of `normalizeSubject` is normal, and what is normal it
leaves alone.

A token in front of a text is read in one way only. The loop takes off one in each turn, with
the white space behind it, and a reply comes to the subject of its parent.
-/

namespace CeMail

/-! ## Letters and white space -/

/-- Printing ASCII is not white space. -/
theorem isWhitespace_of_ascii {c : Char} (h : 0x21 ≤ c.toNat) (h' : c.toNat < 0x7F) :
    isWhitespace c = false := by
  simp only [isWhitespace, Bool.or_eq_false_iff, Bool.and_eq_false_iff, decide_eq_false_iff_not,
    beq_eq_false_iff_ne]
  omega

theorem toNat_toLower {c : Char} (hc : c.isUpper) :
    (65 ≤ c.toNat ∧ c.toNat ≤ 90) ∧ c.toLower.toNat = c.toNat + 32 := by
  have hbounds : 65 ≤ c.toNat ∧ c.toNat ≤ 90 := by
    simpa [Char.isUpper, UInt32.le_iff_toNat_le] using hc
  refine ⟨hbounds, ?_⟩
  rw [Char.toLower_eq_of_isUpper hc, Char.toNat_ofNat, if_pos (Or.inl (by omega))]

/-- A letter is not white space in either case. -/
theorem isWhitespace_toLower (c : Char) : isWhitespace c.toLower = isWhitespace c := by
  by_cases hc : c.isUpper
  · obtain ⟨hbounds, hlower⟩ := toNat_toLower hc
    rw [isWhitespace_of_ascii (by omega) (by omega), isWhitespace_of_ascii (by omega) (by omega)]
  · rw [Char.toLower_eq_of_not_isUpper hc]

theorem toAsciiLowercase_of_not_isUpper {cs : List Char} (h : ∀ c ∈ cs, c.isUpper = false) :
    toAsciiLowercase cs = cs := by
  have hsame : ∀ c ∈ cs, c.toLower = c := fun c hc =>
    Char.toLower_eq_of_not_isUpper (by simp [h c hc])
  rw [toAsciiLowercase, List.map_congr_left hsame]
  exact List.map_id' cs

theorem toAsciiLowercase_idem (cs : List Char) :
    toAsciiLowercase (toAsciiLowercase cs) = toAsciiLowercase cs := by
  rw [toAsciiLowercase, toAsciiLowercase, List.map_map]
  exact List.map_congr_left fun c _ => Char.toLower_toLower_eq_toLower c

theorem toList_trim (s : String) : (trim s).toList = Words.trim isWhitespace s.toList :=
  String.toList_ofList

/-! ## Tokens -/

/-- A prefix in any letter case, maybe digits in brackets, and a colon. -/
structure ReplyToken where
  word : List Char
  digits : Option (List Char)
  known : String.ofList (toAsciiLowercase word) ∈ replyPrefixes
  isDigit : ∀ ds ∈ digits, ∀ d ∈ ds, d.isDigit

namespace ReplyToken

/-- The digits in their brackets. -/
def count (t : ReplyToken) : List Char :=
  match t.digits with
  | none => []
  | some ds => '[' :: ds ++ [']']

def text (t : ReplyToken) : List Char := t.word ++ t.count ++ [':']

theorem isCount_count (t : ReplyToken) : IsCount t.count := by
  unfold count
  split
  · exact Or.inl rfl
  · rename_i ds hds
    exact Or.inr ⟨ds, t.isDigit ds hds, rfl⟩

end ReplyToken

/-- The prefixes are small letters. -/
theorem isLower_of_mem_replyPrefixes {p : String} (h : p ∈ replyPrefixes) :
    p.toList ≠ [] ∧ ∀ c ∈ p.toList, c.isLower := by
  have hall : ∀ p ∈ replyPrefixes, p.toList ≠ [] ∧ ∀ c ∈ p.toList, c.isLower := by
    simp [replyPrefixes]
  exact hall p h

/-- A count is printing ASCII, none of it a letter. -/
theorem IsCount.ascii {count : List Char} (h : IsCount count) :
    ∀ c ∈ count, (0x21 ≤ c.toNat ∧ c.toNat < 0x7F) ∧ c.isUpper = false := by
  rcases h with rfl | ⟨digits, hdigits, rfl⟩
  · exact fun _ hc => absurd hc List.not_mem_nil
  · intro c hc
    rcases List.mem_append.mp hc with hc | hc
    · rcases List.mem_cons.mp hc with rfl | hc
      · decide
      · have hbounds : 48 ≤ c.toNat ∧ c.toNat ≤ 57 := by
          simpa [Char.isDigit, UInt32.le_iff_toNat_le] using hdigits c hc
        refine ⟨⟨by omega, by omega⟩, ?_⟩
        simp only [Char.isUpper, UInt32.le_iff_toNat_le, decide_eq_false_iff_not]
        show ¬(65 ≤ c.toNat ∧ c.toNat ≤ 90)
        omega
    · obtain rfl := List.mem_singleton.mp hc
      decide

/-- A lowered token is a prefix, a count and a colon. -/
theorem ReplyToken.toAsciiLowercase_text (t : ReplyToken) :
    toAsciiLowercase t.text = toAsciiLowercase t.word ++ t.count ++ [':'] := by
  have hcount := toAsciiLowercase_of_not_isUpper fun c hc => (t.isCount_count.ascii c hc).2
  rw [text, toAsciiLowercase_append, toAsciiLowercase_append, hcount]
  rfl

/-- A prefix with a count and a colon is a token. -/
theorem exists_replyToken {p : String} (hp : p ∈ replyPrefixes) {count : List Char}
    (hcount : IsCount count) : ∃ t : ReplyToken, t.text = p.toList ++ count ++ [':'] := by
  have hlower : toAsciiLowercase p.toList = p.toList := by
    refine toAsciiLowercase_of_not_isUpper ?_
    intro c hc
    simpa using Char.not_isUpper_of_isLower ((isLower_of_mem_replyPrefixes hp).2 c hc)
  have hknown : String.ofList (toAsciiLowercase p.toList) ∈ replyPrefixes := by
    rwa [hlower, String.ofList_toList]
  rcases hcount with rfl | ⟨digits, hdigits, rfl⟩
  · exact ⟨⟨p.toList, none, hknown, fun _ h => by cases h⟩, rfl⟩
  · refine ⟨⟨p.toList, some digits, hknown, ?_⟩, rfl⟩
    intro ds hds
    obtain rfl := Option.some.inj hds
    exact hdigits

/-- There is no white space in a token. -/
theorem ReplyToken.isWhitespace_text (t : ReplyToken) : ∀ c ∈ t.text, isWhitespace c = false := by
  intro c hc
  have hlower : c.toLower ∈ toAsciiLowercase t.text := List.mem_map_of_mem hc
  rw [t.toAsciiLowercase_text, List.mem_append, List.mem_append, List.mem_singleton] at hlower
  rw [← isWhitespace_toLower]
  rcases hlower with (hword | hcount) | hcolon
  · have hsmall := (isLower_of_mem_replyPrefixes t.known).2
    rw [String.toList_ofList] at hsmall
    have hbounds : 97 ≤ c.toLower.toNat ∧ c.toLower.toNat ≤ 122 := by
      simpa [Char.isLower, UInt32.le_iff_toNat_le] using hsmall _ hword
    exact isWhitespace_of_ascii (by omega) (by omega)
  · have hascii := (t.isCount_count.ascii _ hcount).1
    exact isWhitespace_of_ascii hascii.1 hascii.2
  · rw [hcolon]
    rfl

/-! ## Stripping -/

/-- The letters at the front of a lowered token are its prefix. -/
theorem takeWhile_isLower {p : String} (hp : p ∈ replyPrefixes) {count : List Char}
    (hcount : IsCount count) (l : List Char) :
    (p.toList ++ count ++ [':'] ++ l).takeWhile Char.isLower = p.toList := by
  have hnone : (count ++ ([':'] ++ l)).takeWhile Char.isLower = [] := by
    rcases hcount with rfl | ⟨digits, -, rfl⟩
    · rfl
    · rfl
  rw [List.append_assoc, List.append_assoc,
    List.takeWhile_append_of_pos (isLower_of_mem_replyPrefixes hp).2, hnone, List.append_nil]

/-- **A token is stripped in one way only**, with the white space behind it. -/
theorem stripTurn_append {p : String} (hp : p ∈ replyPrefixes) {count token : List Char}
    (hcount : IsCount count) (htoken : toAsciiLowercase token = p.toList ++ count ++ [':'])
    (tail : List Char) : stripTurn (token ++ tail) = some (trimStart tail) := by
  have hstrip : stripPrefixToken (toAsciiLowercase (token ++ tail)) (token ++ tail) p
      = some (trimStart tail) :=
    stripPrefixToken_eq_some.mpr ⟨token, tail, count, rfl, hcount, htoken, rfl⟩
  cases hturn : stripTurn (token ++ tail) with
  | none =>
      rw [List.findSome?_eq_none_iff.mp hturn p hp] at hstrip
      cases hstrip
  | some rest =>
      obtain ⟨q, hq, hrest⟩ := List.exists_of_findSome?_eq_some hturn
      -- both prefixes are the letters at the front
      obtain ⟨token', tail', count', heq, hcount', htoken', -⟩ := stripPrefixToken_eq_some.mp hrest
      have hletters := takeWhile_isLower hp hcount (toAsciiLowercase tail)
      rw [← htoken, ← toAsciiLowercase_append, heq, toAsciiLowercase_append, htoken',
        takeWhile_isLower hq hcount'] at hletters
      rw [String.toList_inj.mp hletters] at hrest
      exact hrest.symm.trans hstrip

theorem ReplyToken.stripTurn_append (t : ReplyToken) (tail : List Char) :
    stripTurn (t.text ++ tail) = some (trimStart tail) := by
  refine CeMail.stripTurn_append t.known t.isCount_count ?_ tail
  rw [String.toList_ofList]
  exact t.toAsciiLowercase_text

theorem stripPrefixes_of_some {s rest : List Char} (h : stripTurn s = some rest) :
    stripPrefixes s = stripPrefixes rest := by
  rw [stripPrefixes]
  split
  · rename_i rest' h'
    rw [Option.some.inj (h.symm.trans h')]
  · rename_i h'
    cases h.symm.trans h'

theorem stripPrefixes_of_none {s : List Char} (h : stripTurn s = none) : stripPrefixes s = s := by
  rw [stripPrefixes]
  split
  · rename_i rest' h'
    cases h.symm.trans h'
  · rfl

/-- Where the loop ends there is nothing to strip. -/
theorem stripTurn_stripPrefixes (s : List Char) : stripTurn (stripPrefixes s) = none := by
  fun_induction stripPrefixes s with
  | case1 s rest hturn ih => exact ih
  | case2 s hturn => exact hturn

/-- The loop leaves no white space in front. -/
theorem trimStart_stripPrefixes {s : List Char} (h : trimStart s = s) :
    trimStart (stripPrefixes s) = stripPrefixes s := by
  fun_induction stripPrefixes s with
  | case1 s rest hturn ih =>
      refine ih ?_
      obtain ⟨p, -, hp⟩ := List.exists_of_findSome?_eq_some hturn
      obtain ⟨token, tail, count, -, -, -, rfl⟩ := stripPrefixToken_eq_some.mp hp
      exact List.dropWhile_idempotent isWhitespace tail
  | case2 s hturn => exact h

/-! ## The normal form -/

/--
Single spaces between words and no other white space, no capital, and no token in front in
any letter case.
-/
structure NormalSubject (s : String) : Prop extends Words.Tidy isWhitespace ' ' s.toList where
  lowered : ∀ c ∈ s.toList, c.isUpper = false
  unprefixed : ∀ t : ReplyToken, ¬t.text <+: s.toList

/-- **A normal subject is left alone.** -/
theorem NormalSubject.normalizeSubject_eq {s : String} (h : NormalSubject s) :
    normalizeSubject s = s := by
  have hlower := toAsciiLowercase_of_not_isUpper h.lowered
  have hturn : stripTurn s.toList = none := by
    rw [Option.eq_none_iff_forall_ne_some]
    intro rest hrest
    obtain ⟨p, hp, hstrip⟩ := List.exists_of_findSome?_eq_some hrest
    obtain ⟨token, tail, count, hs, hcount, htoken, -⟩ := stripPrefixToken_eq_some.mp hstrip
    -- there is no capital in the text, so the token is lowered as it stands
    have hsame : toAsciiLowercase token = token := by
      refine toAsciiLowercase_of_not_isUpper ?_
      intro c hc
      refine h.lowered c ?_
      rw [hs]
      exact List.mem_append_left tail hc
    obtain ⟨t, ht⟩ := exists_replyToken hp hcount
    refine h.unprefixed t ?_
    rw [ht, ← htoken, hsame, hs]
    exact List.prefix_append token tail
  rw [normalizeSubject, toList_trim, h.toTidy.trim_eq, stripPrefixes_of_none hturn,
    h.toTidy.collapse_eq, hlower, String.ofList_toList]

/-- **What comes out is normal.** -/
theorem normalSubject_normalizeSubject (s : String) : NormalSubject (normalizeSubject s) := by
  have hfront : trimStart (stripPrefixes (trim s).toList) = stripPrefixes (trim s).toList := by
    refine trimStart_stripPrefixes ?_
    rw [toList_trim, trimStart, Words.trim, ← Words.dropWhile_rdropWhile]
    exact List.dropWhile_idempotent isWhitespace _
  have hturn := stripTurn_stripPrefixes (trim s).toList
  have hlist : (normalizeSubject s).toList = toAsciiLowercase
      (Words.collapse isWhitespace ' ' (stripPrefixes (trim s).toList)) := String.toList_ofList
  generalize stripPrefixes (trim s).toList = body at hfront hturn hlist
  refine ⟨?_, ?_, ?_⟩
  · rw [hlist]
    exact (Words.tidy_collapse ' ' body).map isWhitespace_toLower rfl
  · rw [hlist]
    intro c hc
    obtain ⟨d, -, rfl⟩ := List.mem_map.mp hc
    exact Char.isUpper_toLower_eq_false d
  · intro t ht
    rw [hlist] at ht
    obtain ⟨rest, hrest⟩ := ht
    -- the token was in the text before it was lowered, in some letter case
    obtain ⟨token, tail, hbody, htoken, -⟩ := List.map_eq_append_iff.mp hrest.symm
    have hsolid : ∀ c ∈ token, isWhitespace c = false := by
      intro c hc
      rw [← isWhitespace_toLower]
      exact t.isWhitespace_text _ (htoken ▸ List.mem_map_of_mem hc)
    have hstart : token <+: trimStart body :=
      Words.prefix_of_prefix_collapse rfl hsolid ⟨tail, hbody.symm⟩
    rw [hfront] at hstart
    obtain ⟨tail', rfl⟩ := hstart
    have hlower : toAsciiLowercase token
        = (String.ofList (toAsciiLowercase t.word)).toList ++ t.count ++ [':'] := by
      rw [String.toList_ofList, ← t.toAsciiLowercase_text, ← htoken]
      exact (toAsciiLowercase_idem token).symm
    rw [stripTurn_append t.known t.isCount_count hlower] at hturn
    cases hturn

/-- **Normalizing gives a normal form**, of any text, and once is as good as twice. -/
theorem normalizeSubject_normal (s : String) :
    NormalSubject (normalizeSubject s)
      ∧ normalizeSubject (normalizeSubject s) = normalizeSubject s :=
  ⟨normalSubject_normalizeSubject s, (normalSubject_normalizeSubject s).normalizeSubject_eq⟩

/-! ## Replies -/

/-- A token with white space behind it. -/
structure StackedToken extends ReplyToken where
  space : List Char
  blank : ∀ c ∈ space, isWhitespace c

def StackedToken.spaced (t : StackedToken) : List Char := t.text ++ t.space

/-- A token in front of a text goes in one turn, and leaves the text as it is without it. -/
theorem stripPrefixes_trim_append (t : StackedToken) (cs : List Char) :
    stripPrefixes (Words.trim isWhitespace (t.spaced ++ cs))
      = stripPrefixes (Words.trim isWhitespace cs) := by
  have hword : Words.IsWord isWhitespace t.text := by
    refine ⟨?_, t.isWhitespace_text⟩
    rw [ReplyToken.text]
    exact List.append_ne_nil_of_right_ne_nil _ (List.cons_ne_nil _ _)
  have htrim : Words.trim isWhitespace (t.spaced ++ cs)
      = t.text ++ (t.space ++ cs).rdropWhile isWhitespace := by
    rw [StackedToken.spaced, List.append_assoc, Words.trim, hword.dropWhile_append,
      ReplyToken.text, List.append_assoc _ [':'], List.singleton_append,
      Words.rdropWhile_append_cons rfl]
    simp
  have hrest : trimStart ((t.space ++ cs).rdropWhile isWhitespace)
      = Words.trim isWhitespace cs := by
    rw [trimStart, Words.dropWhile_rdropWhile, List.dropWhile_append_of_pos t.blank, Words.trim]
  rw [htrim, stripPrefixes_of_some (t.stripTurn_append _), hrest]

/--
**A reply keeps its parent's normalized subject**, under any stack of tokens and whatever
the subject is.
-/
theorem normalizeSubject_stack (stack : List StackedToken) (s : String) :
    normalizeSubject (String.ofList (stack.flatMap StackedToken.spaced) ++ s)
      = normalizeSubject s := by
  have hstrip : stripPrefixes (Words.trim isWhitespace
      (stack.flatMap StackedToken.spaced ++ s.toList))
        = stripPrefixes (Words.trim isWhitespace s.toList) := by
    induction stack with
    | nil => rfl
    | cons t stack ih =>
        rw [List.flatMap_cons, List.append_assoc, stripPrefixes_trim_append, ih]
  rw [normalizeSubject, normalizeSubject, toList_trim, toList_trim, String.toList_append,
    String.toList_ofList, hstrip]

end CeMail
