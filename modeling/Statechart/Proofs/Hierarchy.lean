import Mathlib.Data.List.Nodup
import Statechart.Hierarchy.Path

/-
  What can be said about walks in a hierarchy. `ancestors s` is a chain: any two of its states lie
  one above the other (`mem_ancestors_total`). `lca_spec`: `lca` is a common ancestor, and every
  common ancestor is at or above it. A path turns at or above both of its ends (`turn_mem`), no
  further out than it has to (`mem_ancestors_turn`), and below its turn only parent-linked states
  are entered (`descends_path`).
-/

namespace Statechart

namespace Hierarchy

variable {h : Hierarchy} {a b q r s t : StateId}

/-! ## The states above a state -/

theorem ancestors_of_parent (hp : h.parent s = some q) : h.ancestors s = s :: h.ancestors q := by
  rw [ancestors_eq, hp]

theorem ancestors_of_root (hp : h.parent s = none) : h.ancestors s = [s] := by
  rw [ancestors_eq, hp]

theorem cons_tail_ancestors (h : Hierarchy) (s : StateId) :
    s :: (h.ancestors s).tail = h.ancestors s := by
  rw [ancestors_eq, List.tail_cons]

/-- Induction from the roots downwards. -/
@[elab_as_elim]
theorem parent_induction (h : Hierarchy) {P : StateId → Prop}
    (root : ∀ s, h.parent s = none → P s) (step : ∀ s q, h.parent s = some q → P q → P s)
    (s : StateId) : P s := by
  induction s using Nat.strongRecOn with
  | ind s ih =>
    cases hp : h.parent s with
    | none => exact root s hp
    | some q => exact step s q hp (ih q (h.parent_lt hp))

/-- What is left of a walk upwards is itself one. -/
theorem eq_ancestors_of_suffix {ss : List StateId} (hss : s :: ss <:+ h.ancestors t) :
    s :: ss = h.ancestors s := by
  induction t using h.parent_induction with
  | root t hp =>
    rw [ancestors_of_root hp] at hss
    obtain ⟨rfl, rfl⟩ : s = t ∧ ss = [] := by simpa using List.IsSuffix.eq_of_length_le hss
    rw [ancestors_of_root hp]
  | step t q hp ih =>
    rw [ancestors_of_parent hp] at hss
    rcases List.suffix_cons_iff.1 hss with heq | hss
    · obtain ⟨rfl, rfl⟩ := List.cons.inj heq
      rw [ancestors_of_parent hp]
    · exact ih hss

@[simp] theorem self_mem_ancestors (h : Hierarchy) (s : StateId) : s ∈ h.ancestors s := by
  rw [ancestors_eq]
  exact List.mem_cons_self

theorem mem_ancestors_of_parent (hp : h.parent s = some q) :
    a ∈ h.ancestors s ↔ a = s ∨ a ∈ h.ancestors q := by
  rw [ancestors_of_parent hp, List.mem_cons]

theorem parent_mem_ancestors (hp : h.parent s = some q) : q ∈ h.ancestors s :=
  (mem_ancestors_of_parent hp).2 (Or.inr (self_mem_ancestors h q))

theorem le_of_mem_ancestors (ha : a ∈ h.ancestors s) : a ≤ s := by
  induction s using h.parent_induction with
  | root s hp =>
    rw [ancestors_of_root hp, List.mem_singleton] at ha
    lia
  | step s q hp ih =>
    rcases (mem_ancestors_of_parent hp).1 ha with rfl | ha
    · exact Nat.le_refl _
    · have := ih ha
      have := h.parent_lt hp
      lia

theorem mem_ancestors_trans (ha : a ∈ h.ancestors b) (hb : b ∈ h.ancestors s) :
    a ∈ h.ancestors s := by
  induction s using h.parent_induction with
  | root s hp =>
    rw [ancestors_of_root hp, List.mem_singleton] at hb
    rwa [hb] at ha
  | step s q hp ih =>
    rcases (mem_ancestors_of_parent hp).1 hb with rfl | hb
    · exact ha
    · exact (mem_ancestors_of_parent hp).2 (Or.inr (ih hb))

theorem mem_ancestors_antisymm (ha : a ∈ h.ancestors b) (hb : b ∈ h.ancestors a) : a = b :=
  Nat.le_antisymm (le_of_mem_ancestors ha) (le_of_mem_ancestors hb)

/-- Of two states above the same state, one is above the other. -/
theorem mem_ancestors_total (ha : a ∈ h.ancestors s) (hb : b ∈ h.ancestors s) :
    a ∈ h.ancestors b ∨ b ∈ h.ancestors a := by
  induction s using h.parent_induction with
  | root s hp =>
    rw [ancestors_of_root hp, List.mem_singleton] at ha hb
    rw [ha, hb]
    exact Or.inl (self_mem_ancestors h s)
  | step s q hp ih =>
    rcases (mem_ancestors_of_parent hp).1 ha with rfl | ha'
    · exact Or.inr hb
    · rcases (mem_ancestors_of_parent hp).1 hb with rfl | hb'
      · exact Or.inl ha
      · exact ih ha' hb'

theorem parent_not_mem_of_mem (hp : h.parent s = some q) (ha : a ∈ h.ancestors q) : a ≠ s := by
  have := le_of_mem_ancestors ha
  have := h.parent_lt hp
  lia

theorem nodup_ancestors (h : Hierarchy) (s : StateId) : (h.ancestors s).Nodup := by
  induction s using h.parent_induction with
  | root s hp => simp [ancestors_of_root hp]
  | step s q hp ih =>
    rw [ancestors_of_parent hp, List.nodup_cons]
    exact ⟨fun hs => parent_not_mem_of_mem hp hs rfl, ih⟩

theorem mem_tail_ancestors : a ∈ (h.ancestors s).tail ↔ a ∈ h.ancestors s ∧ a ≠ s := by
  have hn := h.nodup_ancestors s
  rw [ancestors_eq] at hn ⊢
  rw [List.tail_cons, List.mem_cons]
  have hs := (List.nodup_cons.1 hn).1
  constructor
  · intro ha
    exact ⟨Or.inr ha, fun e => hs (e ▸ ha)⟩
  · rintro ⟨rfl | ha, hne⟩
    · exact absurd rfl hne
    · exact ha

theorem isWithin_iff : h.isWithin s a = true ↔ a ∈ h.ancestors s := by
  simp [isWithin]

theorem isAbove_iff : h.isAbove a s = true ↔ a ∈ h.ancestors s ∧ a ≠ s := by
  rw [← mem_tail_ancestors]
  simp [isAbove]

theorem ancestors_length_pos (h : Hierarchy) (s : StateId) : 0 < (h.ancestors s).length :=
  List.length_pos_of_mem (self_mem_ancestors h s)

/-- A state has more states above it than any other state above it. -/
theorem ancestors_length_lt (ha : a ∈ h.ancestors s) (hne : a ≠ s) :
    (h.ancestors a).length < (h.ancestors s).length := by
  induction s using h.parent_induction with
  | root s hp =>
    rw [ancestors_of_root hp, List.mem_singleton] at ha
    exact absurd ha hne
  | step s q hp ih =>
    rcases (mem_ancestors_of_parent hp).1 ha with rfl | ha
    · exact absurd rfl hne
    · rw [ancestors_of_parent hp, List.length_cons]
      by_cases hq : a = q
      · rw [hq]
        exact Nat.lt_succ_self _
      · exact Nat.lt_succ_of_lt (ih ha hq)

/-- Above one state, a state is known by how many states are above it. -/
theorem eq_of_ancestors_length (ha : a ∈ h.ancestors s) (hb : b ∈ h.ancestors s)
    (hl : (h.ancestors a).length = (h.ancestors b).length) : a = b := by
  rcases mem_ancestors_total ha hb with hab | hba
  · by_contra hne
    have := ancestors_length_lt hab hne
    lia
  · by_contra hne
    have := ancestors_length_lt hba (Ne.symm hne)
    lia

/-! ## Chains -/

/-- The states from `s` up to, not including, `t`. -/
def chain (h : Hierarchy) (s t : StateId) : List StateId := (h.ancestors s).takeWhile (· != t)

@[simp] theorem chain_self (h : Hierarchy) (s : StateId) : h.chain s s = [] := by
  rw [chain, ancestors_eq]
  simp

theorem chain_of_parent (hp : h.parent s = some q) (hne : s ≠ t) :
    h.chain s t = s :: h.chain q t := by
  rw [chain, chain, ancestors_of_parent hp]
  simp [hne]

theorem ancestors_eq_chain_append (ht : t ∈ h.ancestors s) :
    h.ancestors s = h.chain s t ++ h.ancestors t := by
  induction s using h.parent_induction with
  | root s hp =>
    rw [ancestors_of_root hp, List.mem_singleton] at ht
    simp [ht]
  | step s q hp ih =>
    rcases (mem_ancestors_of_parent hp).1 ht with rfl | ht
    · simp
    · rw [chain_of_parent hp (Ne.symm (parent_not_mem_of_mem hp ht)), ancestors_of_parent hp,
        List.cons_append, ← ih ht]

theorem mem_chain (ht : t ∈ h.ancestors s) :
    a ∈ h.chain s t ↔ a ∈ h.ancestors s ∧ t ∈ h.ancestors a ∧ a ≠ t := by
  have hn := h.nodup_ancestors s
  rw [ancestors_eq_chain_append ht] at hn ⊢
  have hd := List.disjoint_of_nodup_append hn
  constructor
  · intro ha
    have hs : a ∈ h.ancestors s := by
      rw [ancestors_eq_chain_append ht]
      exact List.mem_append_left _ ha
    refine ⟨List.mem_append_left _ ha, ?_, ?_⟩
    · rcases mem_ancestors_total hs ht with hat | hta
      · exact absurd hat (hd ha)
      · exact hta
    · rintro rfl
      exact hd ha (self_mem_ancestors h a)
  · rintro ⟨ha, hta, hne⟩
    rcases List.mem_append.1 ha with ha | ha
    · exact ha
    · exact absurd (mem_ancestors_antisymm ha hta) hne

theorem chain_length_lt (ht : t ∈ h.ancestors s) :
    (h.chain s t).length < (h.ancestors s).length := by
  have := ancestors_length_pos h t
  rw [ancestors_eq_chain_append ht, List.length_append]
  lia

theorem chain_length_le (h : Hierarchy) (s t : StateId) : (h.chain s t).length ≤ s + 1 := by
  have hw : ∀ n u, (walkUp h.parent n u).length ≤ n := by
    intro n
    induction n with
    | zero => intro u; exact Nat.le_refl _
    | succ n ih =>
      intro u
      rw [walkUp, List.length_cons]
      cases h.parent u with
      | none => simp
      | some q => exact Nat.succ_le_succ (ih q)
  exact Nat.le_trans (List.takeWhile_sublist _).length_le (hw (s + 1) s)

/-- The child of `t` on the way down to `s`. -/
theorem exists_child (ht : t ∈ h.ancestors s) (hne : t ≠ s) :
    ∃ q ∈ h.ancestors s, h.parent q = some t := by
  induction s using h.parent_induction with
  | root s hp =>
    rw [ancestors_of_root hp, List.mem_singleton] at ht
    exact absurd ht hne
  | step s q hp ih =>
    rcases (mem_ancestors_of_parent hp).1 ht with rfl | ht
    · exact absurd rfl hne
    · by_cases hq : t = q
      · subst hq
        exact ⟨s, self_mem_ancestors h s, hp⟩
      · obtain ⟨r, hr, hpr⟩ := ih ht hq
        exact ⟨r, (mem_ancestors_of_parent hp).2 (Or.inr hr), hpr⟩

/-- A chain gets longer by one state at the top when it goes up to the parent. -/
theorem chain_parent (ht : t ∈ h.ancestors s) (hp : h.parent t = some q) :
    h.chain s q = h.chain s t ++ [t] := by
  have htq : t ≠ q := by
    have := h.parent_lt hp
    lia
  have hq : q ∈ h.ancestors s := mem_ancestors_trans (parent_mem_ancestors hp) ht
  have h1 := ancestors_eq_chain_append hq
  rw [ancestors_eq_chain_append ht, ancestors_of_parent hp, ← List.singleton_append,
    ← List.append_assoc] at h1
  exact (List.append_cancel_right h1).symm

/-- Two states with the same parent and a common state below them are the same. -/
theorem eq_of_parent_eq (ha : a ∈ h.ancestors s) (hb : b ∈ h.ancestors s)
    (hpa : h.parent a = some q) (hpb : h.parent b = some q) : a = b := by
  apply eq_of_ancestors_length ha hb
  rw [ancestors_of_parent hpa, ancestors_of_parent hpb, List.length_cons, List.length_cons]

/-- Each state of a list is a child of the one before it, the first one of `q`. -/
def Descends (h : Hierarchy) : StateId → List StateId → Prop
  | _, [] => True
  | q, s :: ss => h.parent s = some q ∧ h.Descends s ss

theorem descends_append_singleton (xs : List StateId) :
    h.Descends q (xs ++ [s]) ↔ h.Descends q xs ∧ h.parent s = some (xs.getLastD q) := by
  induction xs generalizing q with
  | nil => simp [Descends]
  | cons x xs ih => simp only [List.cons_append, Descends, ih, List.getLastD_cons, and_assoc]

/-- Read from the top, a chain leads down to the state it started from. -/
theorem descends_chain (ht : t ∈ h.ancestors s) :
    h.Descends t (h.chain s t).reverse ∧ (h.chain s t).reverse.getLastD t = s := by
  induction s using h.parent_induction with
  | root s hp =>
    rw [ancestors_of_root hp, List.mem_singleton] at ht
    simp [ht, Descends]
  | step s q hp ih =>
    rcases (mem_ancestors_of_parent hp).1 ht with rfl | ht
    · simp [Descends]
    · obtain ⟨hd, hl⟩ := ih ht
      rw [chain_of_parent hp (Ne.symm (parent_not_mem_of_mem hp ht)), List.reverse_cons,
        descends_append_singleton, hl]
      exact ⟨⟨hd, hp⟩, by simp⟩

/-! ## The innermost common ancestor -/

/-- The depth that a hierarchy keeps for `s` is the number of states above it. -/
def Counted (h : Hierarchy) (s : StateId) : Prop := h.depth s + 1 = (h.ancestors s).length

theorem ancestors_lift {n : Nat} (hn : n < (h.ancestors s).length) :
    h.ancestors (h.lift n s) = (h.ancestors s).drop n := by
  induction n generalizing s with
  | zero => rfl
  | succ n ih =>
    rw [lift]
    cases hp : h.parent s with
    | none => simp [ancestors_of_root hp] at hn
    | some q =>
      rw [ancestors_of_parent hp] at hn ⊢
      exact ih (Nat.lt_of_succ_lt_succ hn)

theorem lift_mem {n : Nat} (hn : n < (h.ancestors s).length) : h.lift n s ∈ h.ancestors s := by
  have hl := self_mem_ancestors h (h.lift n s)
  rw [ancestors_lift hn] at hl
  exact List.mem_of_mem_drop hl

/-- A state above `s` that is no deeper than `a` is above `a`, for `a` above `s`. -/
theorem mem_ancestors_of_length_le (ha : a ∈ h.ancestors s) (hb : b ∈ h.ancestors s)
    (hl : (h.ancestors b).length ≤ (h.ancestors a).length) : b ∈ h.ancestors a := by
  rcases mem_ancestors_total ha hb with hab | hba
  · by_cases hne : a = b
    · rw [hne]
      exact self_mem_ancestors h b
    · have := ancestors_length_lt hab hne
      lia
  · exact hba

/-- What it means that `m` is the innermost state at or above both `a` and `b`. -/
structure Meets (h : Hierarchy) (a b m : StateId) : Prop where
  left : m ∈ h.ancestors a
  right : m ∈ h.ancestors b
  greatest : ∀ x ∈ h.ancestors a, x ∈ h.ancestors b → x ∈ h.ancestors m

theorem meet_spec {n : Nat} (hn : a < n)
    (hl : (h.ancestors a).length = (h.ancestors b).length)
    (hr : ∃ r, r ∈ h.ancestors a ∧ r ∈ h.ancestors b) : h.Meets a b (h.meet n a b) := by
  induction n generalizing a b with
  | zero => exact absurd hn (Nat.not_lt_zero _)
  | succ n ih =>
    rw [meet]
    split
    · next hab =>
      subst hab
      exact ⟨self_mem_ancestors h a, self_mem_ancestors h a, fun x hx _ => hx⟩
    · next hab =>
      obtain ⟨r, hra, hrb⟩ := hr
      cases hpa : h.parent a with
      | none =>
        -- A root has no other common ancestor than itself, so `b` would be as deep as its parent.
        rw [ancestors_of_root hpa, List.mem_singleton] at hra
        have hne : r ≠ b := fun e => hab (hra ▸ e)
        have := ancestors_length_lt hrb hne
        rw [hra] at this
        lia
      | some qa =>
        cases hpb : h.parent b with
        | none =>
          rw [ancestors_of_root hpb, List.mem_singleton] at hrb
          have hne : r ≠ a := fun e => hab (e ▸ hrb)
          have := ancestors_length_lt hra hne
          rw [hrb] at this
          lia
        | some qb =>
          rw [ancestors_of_parent hpa, ancestors_of_parent hpb] at hl
          have hlq : (h.ancestors qa).length = (h.ancestors qb).length := by simpa using hl
          -- No common ancestor is `a` or `b` itself: they are equally deep and differ.
          have hup : ∀ x, x ∈ h.ancestors a → x ∈ h.ancestors b →
              x ∈ h.ancestors qa ∧ x ∈ h.ancestors qb := by
            intro x hxa hxb
            rcases (mem_ancestors_of_parent hpa).1 hxa with rfl | hxa'
            · have := ancestors_length_lt hxb hab
              rw [ancestors_of_parent hpa, ancestors_of_parent hpb] at this
              simp only [List.length_cons] at this
              lia
            · rcases (mem_ancestors_of_parent hpb).1 hxb with rfl | hxb'
              · have := ancestors_length_lt hxa (Ne.symm hab)
                rw [ancestors_of_parent hpa, ancestors_of_parent hpb] at this
                simp only [List.length_cons] at this
                lia
              · exact ⟨hxa', hxb'⟩
          have hq : qa < n := by
            have := h.parent_lt hpa
            lia
          obtain ⟨hml, hmr, hmg⟩ := ih hq hlq ⟨r, hup r hra hrb⟩
          refine ⟨mem_ancestors_trans hml (parent_mem_ancestors hpa),
            mem_ancestors_trans hmr (parent_mem_ancestors hpb), ?_⟩
          intro x hxa hxb
          obtain ⟨hxqa, hxqb⟩ := hup x hxa hxb
          exact hmg x hxqa hxqb

theorem lca_spec (hca : h.Counted a) (hcb : h.Counted b)
    (hr : ∃ r, r ∈ h.ancestors a ∧ r ∈ h.ancestors b) : h.Meets a b (h.lca a b) := by
  have hla : h.depth a - h.depth b < (h.ancestors a).length := by
    rw [← hca]
    lia
  have hlb : h.depth b - h.depth a < (h.ancestors b).length := by
    rw [← hcb]
    lia
  have hl : (h.ancestors (h.lift (h.depth a - h.depth b) a)).length =
      (h.ancestors (h.lift (h.depth b - h.depth a) b)).length := by
    rw [ancestors_lift hla, ancestors_lift hlb, List.length_drop, List.length_drop, ← hca, ← hcb]
    lia
  -- A common ancestor is no deeper than the shallower of the two, so lifting does not pass it.
  have hup : ∀ x, x ∈ h.ancestors a → x ∈ h.ancestors b →
      x ∈ h.ancestors (h.lift (h.depth a - h.depth b) a) ∧
        x ∈ h.ancestors (h.lift (h.depth b - h.depth a) b) := by
    intro x hxa hxb
    have h1 : (h.ancestors x).length ≤ (h.ancestors a).length := by
      rcases Classical.em (x = a) with rfl | hne
      · exact Nat.le_refl _
      · exact Nat.le_of_lt (ancestors_length_lt hxa hne)
    have h2 : (h.ancestors x).length ≤ (h.ancestors b).length := by
      rcases Classical.em (x = b) with rfl | hne
      · exact Nat.le_refl _
      · exact Nat.le_of_lt (ancestors_length_lt hxb hne)
    refine ⟨mem_ancestors_of_length_le (lift_mem hla) hxa ?_,
      mem_ancestors_of_length_le (lift_mem hlb) hxb ?_⟩
    · rw [ancestors_lift hla, List.length_drop, ← hca]
      rw [← hca] at h1
      rw [← hcb] at h2
      lia
    · rw [ancestors_lift hlb, List.length_drop, ← hcb]
      rw [← hca] at h1
      rw [← hcb] at h2
      lia
  obtain ⟨r, hra, hrb⟩ := hr
  obtain ⟨hml, hmr, hmg⟩ := meet_spec (Nat.lt_succ_self _) hl ⟨r, hup r hra hrb⟩
  refine ⟨mem_ancestors_trans hml (lift_mem hla), mem_ancestors_trans hmr (lift_mem hlb), ?_⟩
  intro x hxa hxb
  obtain ⟨hx1, hx2⟩ := hup x hxa hxb
  exact hmg x hx1 hx2

/-! ## Paths -/

section Path

variable {source target : Anchor} {way : Path}

/-- Both ends of a path have their depths counted and some state above both. -/
structure Joined (h : Hierarchy) (a b : StateId) : Prop where
  left : h.Counted a
  right : h.Counted b
  common : ∃ r, r ∈ h.ancestors a ∧ r ∈ h.ancestors b

/-- A path turns at or above both its ends, and strictly above a target that is a state. -/
theorem turn_mem (hj : h.Joined source.holder target.holder) (ht : h.turn source target = .ok t) :
    t ∈ h.ancestors source.holder ∧ t ∈ h.ancestors target.holder ∧
      target ≠ .state t := by
  have hl := lca_spec hj.left hj.right hj.common
  unfold turn at ht
  cases target with
  | state u =>
    simp only at ht
    split at ht
    · next hw =>
      cases hp : h.parent u with
      | none => simp [hp] at ht
      | some q =>
        obtain rfl : q = t := by simpa [hp] using ht
        refine ⟨mem_ancestors_trans (parent_mem_ancestors hp) (isWithin_iff.1 hw),
          parent_mem_ancestors hp, fun e => ?_⟩
        have := h.parent_lt hp
        cases e
        lia
    · next hw =>
      rw [isWithin_iff] at hw
      split at ht
      · next ha =>
        obtain rfl : source.holder = t := by simpa using ht
        obtain ⟨hm, hne⟩ := isAbove_iff.1 ha
        exact ⟨self_mem_ancestors h _, hm, fun e => hne (Anchor.state.inj e).symm⟩
      · obtain rfl : h.lca source.holder u = t := Except.ok.inj ht
        refine ⟨hl.left, hl.right, fun e => hw ?_⟩
        rw [Anchor.state.inj e]
        exact hl.left
  | inside u =>
    simp only at ht
    split at ht
    · next hw =>
      obtain rfl : u = t := by simpa using ht
      exact ⟨isWithin_iff.1 hw, self_mem_ancestors h u, nofun⟩
    · split at ht
      · next ha =>
        obtain rfl : source.holder = t := by simpa using ht
        exact ⟨self_mem_ancestors h _, (isAbove_iff.1 ha).1, nofun⟩
      · obtain rfl : h.lca source.holder u = t := Except.ok.inj ht
        exact ⟨hl.left, hl.right, nofun⟩

/-- No state further in than the turn holds both ends of the way. -/
theorem mem_ancestors_turn (hj : h.Joined source.holder target.holder)
    (ht : h.turn source target = .ok t) {x : StateId} (hx : x ∈ h.ancestors source.holder)
    (hx' : x ∈ h.ancestors target.holder) (hne : target ≠ .state x) : x ∈ h.ancestors t := by
  have hl := lca_spec hj.left hj.right hj.common
  unfold turn at ht
  cases target with
  | state u =>
    simp only at ht
    split at ht
    · cases hp : h.parent u with
      | none => simp [hp] at ht
      | some q =>
        obtain rfl : q = t := by simpa [hp] using ht
        exact ((mem_ancestors_of_parent hp).1 hx').resolve_left fun e => hne (e ▸ rfl)
    · split at ht
      · obtain rfl : source.holder = t := by simpa using ht
        exact hx
      · obtain rfl : h.lca source.holder u = t := Except.ok.inj ht
        exact hl.greatest x hx hx'
  | inside u =>
    simp only at ht
    split at ht
    · obtain rfl : u = t := by simpa using ht
      exact hx'
    · split at ht
      · obtain rfl : source.holder = t := by simpa using ht
        exact hx
      · obtain rfl : h.lca source.holder u = t := Except.ok.inj ht
        exact hl.greatest x hx hx'

/-- Only a way to a root state has no turn. -/
theorem exists_turn (ht : ∀ t, target = .state t → t ∈ h.ancestors source.holder →
    (h.parent t).isSome) : ∃ t, h.turn source target = .ok t := by
  unfold turn
  cases target with
  | inside u => exact ⟨_, rfl⟩
  | state u =>
    simp only
    split
    · next hw =>
      obtain ⟨q, hq⟩ := Option.isSome_iff_exists.1 (ht u rfl (isWithin_iff.1 hw))
      exact ⟨q, by simp [hq]⟩
    · exact ⟨_, rfl⟩

theorem turn_of_root (hw : t ∈ h.ancestors source.holder) (hp : h.parent t = none) :
    h.turn source (.state t) = .error (.transitionToRoot (h.label source.holder)) := by
  simp [turn, isWithin_iff.2 hw, hp]

/-- From inside a state to something strictly below it, that state is the turn. -/
theorem turn_below (ha : s ∈ h.ancestors target.holder) (hne : s ≠ target.holder) :
    h.turn (.inside s) target = .ok s := by
  have hw : ¬ h.isWithin s target.holder = true := by
    rw [isWithin_iff]
    exact fun hm => hne (mem_ancestors_antisymm ha hm)
  have hb : h.isAbove s target.holder = true := isAbove_iff.2 ⟨ha, hne⟩
  cases target with
  | state u => simp_all [turn, Anchor.holder]
  | inside u => simp_all [turn, Anchor.holder]

theorem turn_inside (hs : s ∈ h.ancestors source.holder) :
    h.turn source (.inside s) = .ok s := by
  simp [turn, isWithin_iff.2 hs]

theorem chainUpTo_eq (h : Hierarchy) (s t : StateId) :
    h.chainUpTo s t =
      if (h.chain s t).length ≤ maxDepth then .ok (h.chain s t)
      else .error (.tooDeep (h.label s)) :=
  rfl

theorem path_eq_ok (ht : h.turn source target = .ok t)
    (hl : (h.chain target.holder t).length ≤ maxDepth) :
    h.path source target = .ok ⟨t, (h.chain target.holder t).reverse⟩ := by
  rw [path, ht]
  simp [bind, Except.bind, chainUpTo_eq, if_pos hl, pure, Except.pure]

theorem path_eq_error {e : ModelError} (ht : h.turn source target = .error e) :
    h.path source target = .error e := by
  rw [path, ht]
  rfl

theorem path_ok_inv (hp : h.path source target = .ok way) :
    h.turn source target = .ok way.turn ∧
      way.enter = (h.chain target.holder way.turn).reverse := by
  cases ht : h.turn source target with
  | error e =>
    rw [path_eq_error ht] at hp
    cases hp
  | ok t =>
    rw [path, ht] at hp
    simp only [bind, Except.bind, chainUpTo_eq] at hp
    split at hp
    · cases hp
    · next heq =>
      split at heq
      · cases heq
        cases hp
        exact ⟨rfl, rfl⟩
      · cases heq

/-- What a path enters leads down from its turn to its target. -/
theorem descends_path (hj : h.Joined source.holder target.holder)
    (hp : h.path source target = .ok way) :
    way.turn ∈ h.ancestors source.holder ∧ h.Descends way.turn way.enter ∧
      way.enter.getLastD way.turn = target.holder := by
  obtain ⟨ht, he⟩ := path_ok_inv hp
  obtain ⟨hs, hu, -⟩ := turn_mem hj ht
  rw [he]
  exact ⟨hs, descends_chain hu⟩

end Path

end Hierarchy

end Statechart
