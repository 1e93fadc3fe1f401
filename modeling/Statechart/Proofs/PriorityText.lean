import Mathlib.Data.List.Forall2
import Mathlib.Data.List.TakeWhile
import Statechart.Priority.Dotted

/-
  The texts of explicit priorities. `Priority.Dotted` says what such a text looks like without
  reading it: spelled numbers with dots between them, perhaps a last dot, and blanks around. Reading
  accepts exactly these texts, as long as they keep to the limits (`segments?_eq_some_iff`), so what
  is written reads back and nothing else is taken for a priority (`parse_reads_dotted`).
-/

namespace Statechart

/-! ## Trimming -/

namespace Text

/-- There are only blanks. -/
def Blank (cs : List Char) : Prop := ∀ c ∈ cs, isBlank c

instance (cs : List Char) : Decidable (Blank cs) :=
  decidable_of_iff (cs.all isBlank) List.all_eq_true

theorem blank_nil : Blank [] := fun _ hc => nomatch hc

section Trimming

variable {lead trail : List Char} {c : Char}

theorem trimLeft_eq_nil_iff {cs : List Char} : trimLeft cs = [] ↔ Blank cs :=
  List.dropWhile_eq_nil_iff

theorem trimLeft_append (cs trail : List Char) :
    trimLeft (cs ++ trail) = if trimLeft cs = [] then trimLeft trail else trimLeft cs ++ trail := by
  unfold trimLeft
  rw [List.dropWhile_append]
  simp

theorem trimLeft_append_cons (cs trail : List Char) (hc : isBlank c = false) :
    trimLeft (cs ++ c :: trail) = trimLeft cs ++ c :: trail := by
  rw [trimLeft_append]
  split
  · next hnil =>
    rw [hnil]
    simp [trimLeft, hc]
  · rfl

theorem trimRight_append_of_blank (cs : List Char) (h : Blank trail) :
    trimRight (cs ++ trail) = trimRight cs := by
  have hrev : ∀ c ∈ trail.reverse, isBlank c := fun c hc => h c (List.mem_reverse.1 hc)
  rw [trimRight, List.reverse_append, trimLeft, List.dropWhile_append_of_pos hrev]
  rfl

/-- The last character that is not blank is the last one after trimming. -/
theorem trim_append_cons (cs : List Char) (hc : isBlank c = false) (htrail : Blank trail) :
    trim (cs ++ c :: trail) = trimLeft cs ++ [c] := by
  rw [trim, trimLeft_append_cons _ _ hc, List.append_cons, trimRight_append_of_blank _ htrail,
    trimRight, List.reverse_append]
  simp [trimLeft, hc]

/-- Blanks around a text do not matter. -/
theorem trim_append (hlead : Blank lead) (cs : List Char) (htrail : Blank trail) :
    trim (lead ++ cs ++ trail) = trim cs := by
  have hnil := trimLeft_eq_nil_iff.2 hlead
  rw [trim, List.append_assoc, trimLeft_append, if_pos hnil, trimLeft_append, trim]
  split
  · next hcs => rw [hcs, trimLeft_eq_nil_iff.2 htrail]
  · exact trimRight_append_of_blank _ htrail

theorem trim_of_forall {cs : List Char} (h : ∀ c ∈ cs, isBlank c = false) : trim cs = cs := by
  have hkeep : ∀ xs : List Char, (∀ c ∈ xs, isBlank c = false) → trimLeft xs = xs := by
    intro xs hxs
    cases xs with
    | nil => rfl
    | cons c xs => simp [trimLeft, hxs c List.mem_cons_self]
  rw [trim, hkeep cs h, trimRight, hkeep cs.reverse (by simpa using h), List.reverse_reverse]

/-- A text is what trimming leaves of it, with blanks around. -/
theorem exists_trim (cs : List Char) :
    ∃ lead trail, Blank lead ∧ Blank trail ∧ cs = lead ++ trim cs ++ trail := by
  have hblank : ∀ xs : List Char, Blank (xs.takeWhile isBlank) := fun xs c hc =>
    List.mem_takeWhile_imp hc
  have hleft : cs = cs.takeWhile isBlank ++ trimLeft cs := List.takeWhile_append_dropWhile.symm
  have hright : trimLeft cs = trim cs ++ ((trimLeft cs).reverse.takeWhile isBlank).reverse := by
    rw [trim, trimRight, ← List.reverse_append]
    unfold trimLeft
    rw [List.takeWhile_append_dropWhile, List.reverse_reverse]
  refine ⟨cs.takeWhile isBlank, ((trimLeft cs).reverse.takeWhile isBlank).reverse, hblank _,
    fun c hc => hblank _ c (List.mem_reverse.1 hc), ?_⟩
  rw [List.append_assoc, ← hright, ← hleft]

end Trimming

end Text

namespace Priority

open Text

/-! ## Spelled numbers -/

/-- The text spells `n`: its digits, perhaps after zeros and a plus sign, and blanks around. -/
def Spells (cs : List Char) (n : Nat) : Prop :=
  ∃ lead sign zeros trail, Blank lead ∧ (sign = [] ∨ sign = ['+']) ∧ Blank trail ∧
    cs = lead ++ (sign ++ List.replicate zeros '0' ++ (decimal n).toList) ++ trail

theorem toList_decimal (n : Nat) : (decimal n).toList = Nat.toDigits 10 n := by
  rw [decimal, String.toList_ofList]

theorem digitsValue_eq (n : Nat) (cs : List Char) :
    digitsValue n cs = if cs.all Char.isDigit then some (Nat.ofDigitChars 10 cs n) else none := by
  induction cs generalizing n with
  | nil => rfl
  | cons c cs ih =>
    rw [digitsValue, ih, List.all_cons, Nat.ofDigitChars_cons]
    cases c.isDigit <;> simp

theorem isDigit_of_mem_spelled {zeros n : Nat} {c : Char}
    (hc : c ∈ List.replicate zeros '0' ++ Nat.toDigits 10 n) : c.isDigit := by
  rcases List.mem_append.1 hc with hc | hc
  · rw [List.eq_of_mem_replicate hc]
    rfl
  · exact Nat.isDigit_of_mem_toDigits (by decide) (by decide) hc

theorem ofDigitChars_spelled (zeros n : Nat) :
    Nat.ofDigitChars 10 (List.replicate zeros '0' ++ Nat.toDigits 10 n) 0 = n := by
  induction zeros with
  | zero => exact Nat.ofDigitChars_toDigits (by decide) (by decide)
  | succ zeros ih =>
    rw [List.replicate_succ, List.cons_append, Nat.ofDigitChars_cons]
    exact ih

theorem range_of_isDigit {c : Char} (hc : c.isDigit) : 48 ≤ c.toNat ∧ c.toNat ≤ 57 := by
  simpa [Char.isDigit, UInt32.le_iff_toNat_le] using hc

theorem isBlank_of_isDigit {c : Char} (hc : c.isDigit) : isBlank c = false := by
  obtain ⟨hlow, hhigh⟩ := range_of_isDigit hc
  rw [isBlank, List.any_eq_false]
  intro r hr
  have hapart : r.2 < 48 ∨ 57 < r.1 := by
    revert r
    decide
  simp only [Bool.and_eq_true, decide_eq_true_eq]
  omega

theorem digitChar_of_isDigit {c : Char} (hc : c.isDigit) :
    c.toNat - '0'.toNat < 10 ∧ Nat.digitChar (c.toNat - '0'.toNat) = c := by
  have hrange := range_of_isDigit hc
  have hlt : c.toNat - '0'.toNat < 10 := by
    change c.toNat - 48 < 10
    omega
  refine ⟨hlt, Char.toNat_inj.1 ?_⟩
  rw [Nat.toNat_digitChar_of_lt_ten hlt]
  change 48 + (c.toNat - 48) = c.toNat
  omega

/-- Digits after a number other than zero are digits of a longer number. -/
theorem toDigits_append {n : Nat} (hn : 0 < n) {cs : List Char} (hcs : ∀ c ∈ cs, c.isDigit) :
    Nat.toDigits 10 n ++ cs = Nat.toDigits 10 (Nat.ofDigitChars 10 cs n) := by
  induction cs generalizing n with
  | nil => rw [List.append_nil, Nat.ofDigitChars_nil]
  | cons c cs ih =>
    obtain ⟨hlt, hchar⟩ := digitChar_of_isDigit (hcs c List.mem_cons_self)
    have hone : Nat.toDigits 10 n ++ [c] =
        Nat.toDigits 10 (10 * n + (c.toNat - '0'.toNat)) := by
      rw [← Nat.toDigits_append_toDigits (by decide) hn hlt, Nat.toDigits_of_lt_base hlt, hchar]
    rw [Nat.ofDigitChars_cons, ← ih (by lia) fun x hx => hcs x (List.mem_cons_of_mem c hx), ← hone,
      List.append_assoc, List.singleton_append]

/-- Digits are those of a number after some zeros. -/
theorem exists_zeros {cs : List Char} (hne : cs ≠ []) (hcs : ∀ c ∈ cs, c.isDigit) :
    ∃ zeros, cs = List.replicate zeros '0' ++ Nat.toDigits 10 (Nat.ofDigitChars 10 cs 0) := by
  induction cs with
  | nil => exact absurd rfl hne
  | cons c cs ih =>
    have hrest : ∀ x ∈ cs, x.isDigit := fun x hx => hcs x (List.mem_cons_of_mem c hx)
    obtain ⟨hlt, hchar⟩ := digitChar_of_isDigit (hcs c List.mem_cons_self)
    rw [Nat.ofDigitChars_cons, Nat.mul_zero, Nat.zero_add]
    rcases Nat.eq_zero_or_pos (c.toNat - '0'.toNat) with hzero | hpos
    · rw [hzero] at hchar ⊢
      obtain rfl : '0' = c := hchar
      by_cases hnil : cs = []
      · exact ⟨0, by rw [hnil]; rfl⟩
      · obtain ⟨zeros, hzeros⟩ := ih hnil hrest
        refine ⟨zeros + 1, ?_⟩
        rw [List.replicate_succ, List.cons_append, ← hzeros]
    · refine ⟨0, ?_⟩
      rw [List.replicate_zero, List.nil_append, ← toDigits_append hpos hrest,
        Nat.toDigits_of_lt_base hlt, hchar]
      rfl

/-- Reading one number: the text after a plus sign is made of digits. -/
theorem segment?_eq_some_iff {cs : List Char} {n : Nat} :
    segment? cs = some n ↔ n ≤ maxSegment ∧ ∃ sign zeros, (sign = [] ∨ sign = ['+']) ∧
      cs = sign ++ List.replicate zeros '0' ++ Nat.toDigits 10 n := by
  constructor
  · intro h
    obtain ⟨sign, hsign, hcs⟩ : ∃ sign, (sign = [] ∨ sign = ['+']) ∧ cs = sign ++ dropPlus cs := by
      unfold dropPlus
      split
      · exact ⟨['+'], .inr rfl, rfl⟩
      · exact ⟨[], .inl rfl, rfl⟩
    simp only [segment?, digitsValue_eq] at h
    split at h
    · cases h
    · next hne =>
      rw [Option.filter_eq_some_iff, decide_eq_true_iff] at h
      obtain ⟨hvalue, hle⟩ := h
      split at hvalue
      · next hdigits =>
        obtain ⟨zeros, hzeros⟩ := exists_zeros (by simpa using hne) (List.all_eq_true.1 hdigits)
        rw [Option.some.inj hvalue] at hzeros
        refine ⟨hle, sign, zeros, hsign, ?_⟩
        rw [List.append_assoc, ← hzeros]
        exact hcs
      · cases hvalue
  · rintro ⟨hle, sign, zeros, hsign, rfl⟩
    have hdigits : ∀ c ∈ List.replicate zeros '0' ++ Nat.toDigits 10 n, c.isDigit :=
      fun c hc => isDigit_of_mem_spelled hc
    have hne : List.replicate zeros '0' ++ Nat.toDigits 10 n ≠ [] := by
      simp [Nat.toDigits_ne_nil]
    have hdrop : dropPlus (sign ++ List.replicate zeros '0' ++ Nat.toDigits 10 n) =
        List.replicate zeros '0' ++ Nat.toDigits 10 n := by
      rcases hsign with rfl | rfl
      · rw [List.nil_append]
        unfold dropPlus
        split
        · next cs heq =>
          have hplus := hdigits '+' (heq ▸ List.mem_cons_self)
          cases hplus
        · rfl
      · rfl
    rw [segment?, hdrop]
    simp only [List.isEmpty_iff, hne, if_false, digitsValue_eq, List.all_eq_true.2 hdigits, if_true,
      ofDigitChars_spelled]
    simp [hle]

/-- Reading a number between blanks. -/
theorem segment?_trim_eq_some_iff {cs : List Char} {n : Nat} :
    segment? (trim cs) = some n ↔ Spells cs n ∧ n ≤ maxSegment := by
  unfold Spells
  rw [toList_decimal, segment?_eq_some_iff, and_comm]
  refine and_congr_left fun _ => ⟨?_, ?_⟩
  · rintro ⟨sign, zeros, hsign, htrim⟩
    obtain ⟨lead, trail, hlead, htrail, hcs⟩ := exists_trim cs
    exact ⟨lead, sign, zeros, trail, hlead, hsign, htrail, htrim ▸ hcs⟩
  · rintro ⟨lead, sign, zeros, trail, hlead, hsign, htrail, rfl⟩
    refine ⟨sign, zeros, hsign, ?_⟩
    rw [trim_append hlead _ htrail]
    refine trim_of_forall fun c hc => ?_
    rw [List.append_assoc, List.mem_append] at hc
    rcases hc with hc | hc
    · rcases hsign with rfl | rfl
      · cases hc
      · rw [List.mem_singleton.1 hc]
        rfl
    · exact isBlank_of_isDigit (isDigit_of_mem_spelled hc)

theorem Spells.not_mem_dot {cs : List Char} {n : Nat} (h : Spells cs n) : '.' ∉ cs := by
  obtain ⟨lead, sign, zeros, trail, hlead, hsign, htrail, rfl⟩ := h
  intro hmem
  rw [toList_decimal, List.append_assoc, List.append_assoc, List.append_assoc] at hmem
  rcases List.mem_append.1 hmem with hmem | hmem
  · cases hlead _ hmem
  · rcases List.mem_append.1 hmem with hmem | hmem
    · rcases hsign with rfl | rfl <;> simp at hmem
    · rw [← List.append_assoc] at hmem
      rcases List.mem_append.1 hmem with hmem | hmem
      · cases isDigit_of_mem_spelled hmem
      · cases htrail _ hmem

/-- The last character that is not blank is a digit. -/
theorem Spells.exists_last {cs : List Char} {n : Nat} (h : Spells cs n) :
    ∃ first digit trail, digit.isDigit ∧ Blank trail ∧ cs = first ++ digit :: trail := by
  obtain ⟨lead, sign, zeros, trail, -, -, htrail, rfl⟩ := h
  obtain ⟨digits, digit, hdigits⟩ := List.eq_nil_or_concat'  (Nat.toDigits 10 n)
    |>.resolve_left Nat.toDigits_ne_nil
  refine ⟨lead ++ (sign ++ List.replicate zeros '0' ++ digits), digit, trail, ?_, htrail, ?_⟩
  · exact Nat.isDigit_of_mem_toDigits (b := 10) (n := n) (by decide) (by decide) (by simp [hdigits])
  · rw [toList_decimal, hdigits]
    simp

/-! ## Parts between dots -/

theorem splitDots_eq (cs : List Char) : splitDots cs = cs.splitOn '.' := by
  induction cs with
  | nil => rfl
  | cons c cs ih =>
    rw [splitDots, List.splitOn_cons_eq_if_modifyHead, ih]
    by_cases hc : c = '.'
    · simp [hc]
    · cases hsplit : cs.splitOn '.' with
      | nil => exact absurd hsplit (List.splitOn_ne_nil _ _)
      | cons part parts => simp [hc]

theorem splitDots_ne_nil (cs : List Char) : splitDots cs ≠ [] := by
  rw [splitDots_eq]
  exact List.splitOn_ne_nil _ _

theorem intercalate_splitDots (cs : List Char) : ['.'].intercalate (splitDots cs) = cs := by
  rw [splitDots_eq, List.intercalate_splitOn]

theorem splitDots_intercalate {parts : List (List Char)} (hne : parts ≠ [])
    (hparts : ∀ part ∈ parts, '.' ∉ part) : splitDots (['.'].intercalate parts) = parts := by
  rw [splitDots_eq, List.splitOn_intercalate '.' hparts hne]

/-- Blanks before a text belong to its first part. -/
theorem map_trim_splitDots_append_left {lead : List Char} (hlead : Blank lead) (cs : List Char) :
    (splitDots (lead ++ cs)).map trim = (splitDots cs).map trim := by
  induction lead with
  | nil => rfl
  | cons c lead ih =>
    obtain ⟨hc, hlead⟩ := List.forall_mem_cons.1 hlead
    have hdot : c ≠ '.' := by
      rintro rfl
      cases hc
    have htrim : ∀ part, trim (c :: part) = trim part := fun part => by
      simpa using trim_append (show Blank [c] by simpa [Blank] using hc) part blank_nil
    rw [List.cons_append, ← ih hlead, splitDots, if_neg hdot]
    cases hsplit : splitDots (lead ++ cs) with
    | nil => exact absurd hsplit (splitDots_ne_nil _)
    | cons part parts => rw [List.map_cons, List.map_cons, htrim]

/-- What follows a text up to the next dot belongs to its last part. -/
theorem exists_splitDots_append {trail : List Char} (htrail : '.' ∉ trail) (cs : List Char) :
    ∃ init last, splitDots cs = init ++ [last] ∧
      splitDots (cs ++ trail) = init ++ [last ++ trail] := by
  induction cs with
  | nil => exact ⟨[], [], rfl, by rw [splitDots_eq]; exact List.splitOn_eq_singleton htrail⟩
  | cons c cs ih =>
    obtain ⟨init, last, hcs, happend⟩ := ih
    rw [List.cons_append, splitDots, splitDots, hcs, happend]
    by_cases hc : c = '.'
    · exact ⟨[] :: init, last, by simp [hc]⟩
    · cases init with
      | nil => exact ⟨[], c :: last, by simp [hc]⟩
      | cons part init => exact ⟨(c :: part) :: init, last, by simp [hc]⟩

theorem map_trim_splitDots_trimLeft (cs : List Char) :
    (splitDots (trimLeft cs)).map trim = (splitDots cs).map trim := by
  have hlead : Blank (cs.takeWhile isBlank) := fun c hc => List.mem_takeWhile_imp hc
  conv_rhs => rw [← List.takeWhile_append_dropWhile (p := isBlank) (l := cs)]
  rw [map_trim_splitDots_append_left hlead]
  rfl

theorem map_trim_splitDots_trim (cs : List Char) :
    (splitDots (trim cs)).map trim = (splitDots cs).map trim := by
  obtain ⟨lead, trail, hlead, htrail, hcs⟩ := exists_trim cs
  have hdot : '.' ∉ trail := fun hmem => by cases htrail _ hmem
  obtain ⟨init, last, hinit, happend⟩ := exists_splitDots_append hdot (trim cs)
  have hlast : trim (last ++ trail) = trim last := by
    simpa using trim_append blank_nil last htrail
  conv_rhs => rw [hcs, List.append_assoc, map_trim_splitDots_append_left hlead, happend]
  rw [hinit, List.map_append, List.map_append, List.map_singleton, List.map_singleton, hlast]

/-! ## Dotted texts -/

/-- The text names these numbers: each is spelled, dots stand between them and perhaps one after
the last, and there may be blanks around. -/
def Dotted (cs : List Char) (ns : List Nat) : Prop :=
  ∃ lead parts dot trail, Blank lead ∧ parts ≠ [] ∧ List.Forall₂ Spells parts ns ∧
    (dot = [] ∨ dot = ['.']) ∧ Blank trail ∧
    cs = lead ++ (['.'].intercalate parts ++ dot) ++ trail

theorem exists_intercalate_eq {parts : List (List Char)} {last : List Char}
    (h : parts.getLast? = some last) : ∃ first, ['.'].intercalate parts = first ++ last := by
  induction parts with
  | nil => cases h
  | cons part parts ih =>
    cases parts with
    | nil =>
      obtain rfl : part = last := by simpa using h
      exact ⟨[], by simp⟩
    | cons next parts =>
      obtain ⟨first, hfirst⟩ := ih (by simpa using h)
      refine ⟨part ++ ['.'] ++ first, ?_⟩
      rw [List.intercalate_cons_cons, hfirst, List.append_assoc _ first]

theorem dropLastDot_append_dot (cs : List Char) : dropLastDot (cs ++ ['.']) = cs := by
  simp [dropLastDot]

/-- What holds of every spelled text holds of all parts. -/
theorem forall_mem_parts {P : List Char → Prop} {parts : List (List Char)} {ns : List Nat}
    (hparts : List.Forall₂ Spells parts ns) (hP : ∀ part n, Spells part n → P part) :
    ∀ part ∈ parts, P part :=
  ((List.forall₂_and_left _ _).1 (hparts.imp fun part n h => ⟨hP part n h, h⟩)).1

/-- Without its last dot and its outer blanks, a dotted text still has the same parts. -/
theorem map_trim_splitDots_body {parts : List (List Char)} {ns : List Nat} (hne : parts ≠ [])
    (hparts : List.Forall₂ Spells parts ns) {dot : List Char} (hdot : dot = [] ∨ dot = ['.']) :
    (splitDots (dropLastDot (trim (['.'].intercalate parts ++ dot)))).map trim =
      parts.map trim := by
  have hsplit : splitDots (['.'].intercalate parts) = parts :=
    splitDots_intercalate hne (forall_mem_parts hparts fun _ _ h => h.not_mem_dot)
  suffices hbody : (splitDots (dropLastDot (trim (['.'].intercalate parts ++ dot)))).map trim =
      (splitDots (['.'].intercalate parts)).map trim by rw [hbody, hsplit]
  rcases hdot with rfl | rfl
  · -- The text ends in a digit, so there is no dot to be dropped.
    obtain ⟨last, hlast⟩ := Option.isSome_iff_exists.1 (List.getLast?_isSome.2 hne)
    obtain ⟨before, hbefore⟩ := exists_intercalate_eq hlast
    obtain ⟨first, digit, trail, hdigit, htrail, rfl⟩ :=
      forall_mem_parts hparts (fun _ _ h => h.exists_last) last (List.mem_of_getLast? hlast)
    have htrim : trim (['.'].intercalate parts) = trimLeft (before ++ first) ++ [digit] := by
      rw [hbefore, ← List.append_assoc, trim_append_cons _ (isBlank_of_isDigit hdigit) htrail]
    have hkeep : dropLastDot (trim (['.'].intercalate parts)) = trim (['.'].intercalate parts) := by
      rw [htrim, dropLastDot, List.getLast?_concat, if_neg]
      rintro ⟨⟩
      cases hdigit
    rw [List.append_nil, hkeep, map_trim_splitDots_trim]
  · have htrim := trim_append_cons (['.'].intercalate parts) (c := '.') rfl blank_nil
    rw [htrim, dropLastDot_append_dot, map_trim_splitDots_trimLeft]

/-! ## Reading -/

theorem mapM_eq_some_iff {α β : Type} {f : α → Option β} {xs : List α} {ys : List β} :
    xs.mapM f = some ys ↔ List.Forall₂ (fun x y => f x = some y) xs ys := by
  induction xs generalizing ys with
  | nil => simp [eq_comm]
  | cons x xs ih =>
    rw [List.mapM_cons, List.forall₂_cons_left_iff]
    simp only [Option.bind_eq_bind, Option.bind_eq_some_iff, Option.pure_def, Option.some.injEq, ih]
    constructor
    · rintro ⟨y, hy, rest, hrest, rfl⟩
      exact ⟨y, rest, hy, hrest, rfl⟩
    · rintro ⟨y, rest, hy, hrest, rfl⟩
      exact ⟨y, hy, rest, hrest, rfl⟩

/-- An empty text has one part, which is no number. -/
theorem segments?_eq (cs : List Char) :
    segments? cs =
      (((splitDots (dropLastDot (trim cs))).map trim).mapM segment?).filter
        fun ns => ns.length ≤ maxSegments := by
  rw [segments?, List.mapM_map]
  split
  · next hempty =>
    rw [List.isEmpty_iff.1 hempty]
    rfl
  · rfl

/-- How many numbers there are, and how great they are. -/
structure InLimits (ns : List Nat) : Prop where
  some : 1 ≤ ns.length
  few : ns.length ≤ 8
  small : ∀ n ∈ ns, n ≤ 65535

/-- Reading accepts the dotted texts that keep to the limits. -/
theorem segments?_eq_some_iff {cs : List Char} {ns : List Nat} :
    segments? cs = some ns ↔ Dotted cs ns ∧ InLimits ns := by
  rw [segments?_eq, Option.filter_eq_some_iff, mapM_eq_some_iff, decide_eq_true_iff]
  constructor
  · rintro ⟨hread, hfew⟩
    rw [List.forall₂_map_left_iff] at hread
    simp only [segment?_trim_eq_some_iff] at hread
    have hne := splitDots_ne_nil (dropLastDot (trim cs))
    have hsmall := (List.forall₂_and_left _ _).1 (hread.flip.imp fun n part h => ⟨h.2, h⟩)
    obtain ⟨dot, hdot, hbody⟩ : ∃ dot, (dot = [] ∨ dot = ['.']) ∧
        trim cs = dropLastDot (trim cs) ++ dot := by
      unfold dropLastDot
      split
      · next hlast => exact ⟨['.'], .inr rfl, (List.dropLast_append_getLast? '.' hlast).symm⟩
      · exact ⟨[], .inl rfl, (List.append_nil _).symm⟩
    obtain ⟨lead, trail, hlead, htrail, hcs⟩ := exists_trim cs
    refine ⟨⟨lead, _, dot, trail, hlead, hne, hread.imp fun _ _ h => h.1, hdot, htrail, ?_⟩,
      ?_, hfew, hsmall.1⟩
    · rw [intercalate_splitDots, ← hbody]
      exact hcs
    · rw [← hread.length_eq]
      exact List.length_pos_of_ne_nil hne
  · rintro ⟨⟨lead, parts, dot, trail, hlead, hne, hparts, hdot, htrail, rfl⟩, hlimits⟩
    rw [trim_append hlead _ htrail, map_trim_splitDots_body hne hparts hdot,
      List.forall₂_map_left_iff]
    refine ⟨?_, hlimits.few⟩
    have hsmall := (List.forall₂_and_left _ _).2 ⟨hlimits.small, hparts.flip⟩
    exact hsmall.flip.imp fun part n h => segment?_trim_eq_some_iff.2 ⟨h.2, h.1⟩

theorem parse_eq_ok_iff {text : String} {priority : Priority} :
    parse text = .ok priority ↔
      ∃ ns, priority = explicit ns ∧ Dotted text.toList ns ∧ InLimits ns := by
  simp only [parse, ← segments?_eq_some_iff]
  cases segments? text.toList <;> simp [eq_comm]

theorem parse_eq_error_iff {text : String} {error : ModelError} :
    parse text = .error error ↔
      error = .invalidPriority text ∧ ∀ ns, InLimits ns → ¬ Dotted text.toList ns := by
  have hnone : (∀ ns, InLimits ns → ¬ Dotted text.toList ns) ↔ segments? text.toList = none := by
    rw [Option.eq_none_iff_forall_ne_some]
    refine forall_congr' fun ns => ?_
    rw [Ne, segments?_eq_some_iff, not_and']
  rw [hnone, parse]
  cases segments? text.toList <;> simp [eq_comm]

/-! ## Writing -/

theorem spells_decimal (n : Nat) : Spells (decimal n).toList n :=
  ⟨[], [], 0, [], blank_nil, .inl rfl, blank_nil, by simp⟩

/-- A dot after each number is a dot between two numbers and one after the last. -/
theorem flatMap_append_dot {ns : List Nat} (hne : ns ≠ []) :
    ns.flatMap (fun n => (decimal n).toList ++ ['.']) =
      ['.'].intercalate (ns.map fun n => (decimal n).toList) ++ ['.'] := by
  induction ns with
  | nil => exact absurd rfl hne
  | cons n ns ih =>
    cases ns with
    | nil => simp
    | cons next ns =>
      rw [List.flatMap_cons, ih (by simp)]
      simp [List.intercalate_cons_cons]

/-- What is written is dotted, also without its last dot. -/
theorem exists_dotted_text {ns : List Nat} (hne : ns ≠ []) :
    ∃ body, (explicit ns).text = body ++ "." ∧ Dotted body.toList ns ∧
      Dotted (explicit ns).text.toList ns := by
  have htext : (explicit ns).text.toList =
      ['.'].intercalate (ns.map fun n => (decimal n).toList) ++ ['.'] := by
    rw [text, String.toList_join, List.flatMap_map, ← flatMap_append_dot hne]
    simp
  have hparts : List.Forall₂ Spells (ns.map fun n => (decimal n).toList) ns := by
    rw [List.forall₂_map_left_iff, List.forall₂_same]
    exact fun n _ => spells_decimal n
  have hdotted : ∀ dot, dot = [] ∨ dot = ['.'] →
      Dotted (['.'].intercalate (ns.map fun n => (decimal n).toList) ++ dot) ns := fun dot hdot =>
    ⟨[], _, dot, [], blank_nil, by simpa using hne, hparts, hdot, blank_nil, by simp⟩
  refine ⟨String.ofList (['.'].intercalate (ns.map fun n => (decimal n).toList)), ?_, ?_, ?_⟩
  · apply String.toList_injective
    rw [htext, String.toList_append, String.toList_ofList]
    rfl
  · rw [String.toList_ofList]
    simpa using hdotted [] (.inl rfl)
  · rw [htext]
    exact hdotted ['.'] (.inr rfl)

/-- Every dotted text that keeps to the limits reads as its numbers, whatever blanks, zeros, plus
signs and last dot it has. The written form is such a text, also without its last dot. What was read
keeps to the limits, and its written form reads back. Any other text is refused, and the error
carries it as it was. -/
theorem parse_reads_dotted :
    (∀ ns, InLimits ns → ∀ text : String, Dotted text.toList ns →
      parse text = .ok (explicit ns)) ∧
    (∀ ns, InLimits ns → ∃ body, (explicit ns).text = body ++ "." ∧ Dotted body.toList ns ∧
      Dotted (explicit ns).text.toList ns) ∧
    (∀ text priority, parse text = .ok priority →
      ∃ ns, priority = explicit ns ∧ InLimits ns ∧ Dotted text.toList ns ∧
        parse priority.text = .ok priority) ∧
    ∀ text error, parse text = .error error ↔
      error = .invalidPriority text ∧ ∀ ns, InLimits ns → ¬ Dotted text.toList ns := by
  have hne : ∀ {ns : List Nat}, InLimits ns → ns ≠ [] := fun h => List.ne_nil_of_length_pos h.some
  refine ⟨fun ns hns text htext => parse_eq_ok_iff.2 ⟨ns, rfl, htext, hns⟩,
    fun ns hns => exists_dotted_text (hne hns), fun text priority h => ?_,
    fun text error => parse_eq_error_iff⟩
  obtain ⟨ns, rfl, hdotted, hns⟩ := parse_eq_ok_iff.1 h
  obtain ⟨-, -, -, hwritten⟩ := exists_dotted_text (hne hns)
  exact ⟨ns, rfl, hns, hdotted, parse_eq_ok_iff.2 ⟨ns, rfl, hwritten, hns⟩⟩

theorem padded_parse_reads_dotted :
    InLimits [7, 65535, 0] ∧ Dotted " +007 .65535.\t+0 . ".toList [7, 65535, 0] ∧
      parse " +007 .65535.\t+0 . " = .ok (explicit [7, 65535, 0]) ∧
      (explicit [7, 65535, 0]).text = "7.65535.0." ∧
      parse "7.65535.0." = .ok (explicit [7, 65535, 0]) ∧
      ∀ ns, InLimits ns → ¬ Dotted "1..".toList ns := by
  have hns : InLimits [7, 65535, 0] := ⟨by decide, by decide, by decide⟩
  have hdotted : Dotted " +007 .65535.\t+0 . ".toList [7, 65535, 0] := by
    refine ⟨[], [" +007 ".toList, "65535".toList, "\t+0 ".toList], ['.'], [' '], blank_nil,
      by simp, .cons ?_ (.cons ?_ (.cons ?_ .nil)), .inr rfl, by decide, by decide⟩
    · exact ⟨[' '], ['+'], 2, [' '], by decide, .inr rfl, by decide, by decide⟩
    · exact spells_decimal 65535
    · exact ⟨['\t'], ['+'], 0, [' '], by decide, .inr rfl, by decide, by decide⟩
  obtain ⟨hreads, -, hback, hrefused⟩ := parse_reads_dotted
  have hparse := hreads _ hns _ hdotted
  obtain ⟨-, -, -, -, htext⟩ := hback _ _ hparse
  have hwritten : (explicit [7, 65535, 0]).text = "7.65535.0." := by decide
  exact ⟨hns, hdotted, hparse, hwritten, hwritten ▸ htext,
    ((hrefused "1.." (.invalidPriority "1..")).1 (by decide)).2⟩

end Priority

end Statechart
