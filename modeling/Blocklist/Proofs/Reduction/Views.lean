import Blocklist.Proofs.Reduction.Account

/-! What a reduction keeps apart. Network rules and element rules never meet in a pass, and neither do rules with
different actions; nor does it matter where a rule was read. So the result, seen through the rules of some actions and
one of the two kinds, is the result of reducing what is seen of the given rules. -/

namespace Blocklist

def Rule.unplaced (r : Rule) : Rule := { r with source := [], line := 0 }

namespace Rule

@[simp] theorem unplaced_key (r : Rule) : r.unplaced.key = r.key := rfl

@[simp] theorem unplaced_action (r : Rule) : r.unplaced.action = r.action := rfl

@[simp] theorem unplaced_body (r : Rule) : r.unplaced.body = r.body := rfl

@[simp] theorem unplaced_priority (r : Rule) : r.unplaced.priority = r.priority := rfl

@[simp] theorem unplaced_isNetwork (r : Rule) : r.unplaced.isNetwork = r.isNetwork := rfl

@[simp] theorem unplaced_unplaced (r : Rule) : r.unplaced.unplaced = r.unplaced := rfl

end Rule

/-- A choice of rules by their action and by whether they are network rules. -/
abbrev Choice := Action → Bool → Bool

namespace Choice

def all : Choice := fun _ _ => true

def network : Choice := fun _ n => n

def element : Choice := fun _ n => !n

def withAction (a : Action) : Choice := fun b n => n && b == a

end Choice

def Rule.isIn (q : Choice) (r : Rule) : Bool := q r.action r.isNetwork

@[simp] theorem Rule.unplaced_isIn (q : Choice) (r : Rule) : r.unplaced.isIn q = r.isIn q := rfl

@[simp] theorem Rule.isIn_all (r : Rule) : r.isIn .all = true := rfl

@[simp] theorem Rule.isIn_network (r : Rule) : r.isIn .network = r.isNetwork := rfl

@[simp] theorem Rule.isIn_element (r : Rule) : r.isIn .element = !r.isNetwork := rfl

/-- What is seen of the rules through a choice: the chosen ones, in order, without their places. -/
def view (q : Choice) (rules : List Rule) : List Rule := (rules.filter (Rule.isIn q)).map Rule.unplaced

section view

variable {q : Choice} {r : Rule}

@[simp] theorem view_nil (q : Choice) : view q [] = [] := rfl

@[simp] theorem view_cons_of_isIn (h : r.isIn q = true) (rules : List Rule) :
    view q (r :: rules) = r.unplaced :: view q rules := by
  simp [view, h]

@[simp] theorem view_cons_of_not_isIn (h : r.isIn q = false) (rules : List Rule) : view q (r :: rules) = view q rules := by
  simp [view, h]

@[simp] theorem view_append (q : Choice) (rules rules' : List Rule) :
    view q (rules ++ rules') = view q rules ++ view q rules' := by
  simp [view]

theorem view_reverse (q : Choice) (rules : List Rule) : view q rules.reverse = (view q rules).reverse := by
  simp [view]

theorem view_all (rules : List Rule) : view .all rules = rules.map Rule.unplaced := by
  rw [view, List.filter_eq_self.mpr fun r _ => r.isIn_all]

theorem mem_view {rules : List Rule} {v : Rule} : v ∈ view q rules ↔ ∃ r ∈ rules, r.isIn q = true ∧ r.unplaced = v := by
  simp [view, and_assoc]

end view

namespace Reduction

variable (q : Choice)

theorem isIn_of_key_eq {r s : Rule} (h : r.key = s.key) : r.isIn q = s.isIn q := by
  obtain ⟨ha, hb⟩ := Rule.Key.mk.inj h
  simp only [Rule.isIn, Rule.isNetwork, ha, hb]

theorem view_absorb_of_isIn {r : Rule} (h : r.isIn q = true) (ks : List Rule) :
    view q (absorb ks r) = absorb (view q ks) r.unplaced := by
  induction ks with
  | nil => simp [absorb, h]
  | cons k ks ih =>
    by_cases hk : k.key = r.key
    · have hin : k.isIn q = true := (isIn_of_key_eq q hk).trans h
      rw [absorb, if_pos hk, view_cons_of_isIn hin, absorb, if_pos (by simpa using hk)]
      exact view_cons_of_isIn (r := { k with priority := higher k.priority r.priority }) hin ks
    · rw [absorb, if_neg hk]
      cases hin : k.isIn q with
      | true => rw [view_cons_of_isIn hin, view_cons_of_isIn hin, absorb, if_neg (by simpa using hk), ih]
      | false => rw [view_cons_of_not_isIn hin, view_cons_of_not_isIn hin, ih]

theorem view_absorb_of_not_isIn {r : Rule} (h : r.isIn q = false) (ks : List Rule) :
    view q (absorb ks r) = view q ks := by
  induction ks with
  | nil => simp [absorb, h]
  | cons k ks ih =>
    by_cases hk : k.key = r.key
    · have hin : k.isIn q = false := (isIn_of_key_eq q hk).trans h
      rw [absorb, if_pos hk, view_cons_of_not_isIn hin]
      exact view_cons_of_not_isIn (r := { k with priority := higher k.priority r.priority }) hin ks
    · rw [absorb, if_neg hk]
      cases hin : k.isIn q with
      | true => rw [view_cons_of_isIn hin, view_cons_of_isIn hin, ih]
      | false => rw [view_cons_of_not_isIn hin, view_cons_of_not_isIn hin, ih]

theorem view_foldl_absorb (ks rules : List Rule) :
    view q (rules.foldl absorb ks) = (view q rules).foldl absorb (view q ks) := by
  induction rules generalizing ks with
  | nil => rfl
  | cons r rules ih =>
    rw [List.foldl_cons, ih]
    cases h : r.isIn q with
    | true => rw [view_cons_of_isIn h, List.foldl_cons, view_absorb_of_isIn q h]
    | false => rw [view_cons_of_not_isIn h, view_absorb_of_not_isIn q h]

theorem view_distinct (rules : List Rule) : view q (distinct rules) = distinct (view q rules) :=
  view_foldl_absorb q [] rules

/-- Ranking puts a rule before the first one that does not rank higher. -/
theorem exists_ranked_cons (r : Rule) (rules : List Rule) :
    ∃ l₁ l₂, ranked rules = l₁ ++ l₂ ∧ ranked (r :: rules) = l₁ ++ r :: l₂ ∧
      (∀ b ∈ l₁, ¬ b.priority ≤ r.priority) ∧ ∀ b ∈ l₂, b.priority ≤ r.priority := by
  obtain ⟨l₁, l₂, hcons, hrules, hl₁⟩ := List.mergeSort_cons ble_priority_trans ble_priority_total r rules
  have hsorted : Ranked (l₁ ++ r :: l₂) := hcons ▸ ranked_ranked (r :: rules)
  refine ⟨l₁, l₂, hrules, hcons, ?_, (List.pairwise_cons.mp (List.pairwise_append.mp hsorted).2.1).1⟩
  intro b hb hle
  have hnot := hl₁ b hb
  rw [Nat.ble_eq_true_of_le (UInt32.le_iff_toNat_le.mp hle)] at hnot
  cases hnot

/-- A list is cut in one way only into elements with a property and elements without it. -/
theorem append_eq_append_of_forall {p : α → Prop} {l₁ l₂ m₁ m₂ : List α} (h : l₁ ++ l₂ = m₁ ++ m₂)
    (hl₁ : ∀ a ∈ l₁, ¬ p a) (hl₂ : ∀ a ∈ l₂, p a) (hm₁ : ∀ a ∈ m₁, ¬ p a) (hm₂ : ∀ a ∈ m₂, p a) :
    l₁ = m₁ ∧ l₂ = m₂ := by
  induction l₁ generalizing m₁ with
  | nil =>
    cases m₁ with
    | nil => exact ⟨rfl, h⟩
    | cons a m₁ =>
      obtain rfl : l₂ = a :: (m₁ ++ m₂) := h
      exact absurd (hl₂ a (by simp)) (hm₁ a (by simp))
  | cons a l₁ ih =>
    cases m₁ with
    | nil =>
      obtain rfl : a :: (l₁ ++ l₂) = m₂ := h
      exact absurd (hm₂ a (by simp)) (hl₁ a (by simp))
    | cons b m₁ =>
      obtain ⟨rfl, hrest⟩ := List.cons.inj h
      obtain ⟨rfl, rfl⟩ := ih hrest (fun c hc => hl₁ c (by simp [hc])) (fun c hc => hm₁ c (by simp [hc]))
      exact ⟨rfl, rfl⟩

theorem ranked_cons_eq {r : Rule} {rules l₁ l₂ : List Rule} (h : ranked rules = l₁ ++ l₂)
    (h₁ : ∀ b ∈ l₁, ¬ b.priority ≤ r.priority) (h₂ : ∀ b ∈ l₂, b.priority ≤ r.priority) :
    ranked (r :: rules) = l₁ ++ r :: l₂ := by
  obtain ⟨m₁, m₂, hm, hcons, hm₁, hm₂⟩ := exists_ranked_cons r rules
  obtain ⟨rfl, rfl⟩ := append_eq_append_of_forall (h.symm.trans hm) h₁ h₂ hm₁ hm₂
  exact hcons

theorem view_ranked (rules : List Rule) : view q (ranked rules) = ranked (view q rules) := by
  induction rules with
  | nil => simp [ranked]
  | cons r rules ih =>
    obtain ⟨l₁, l₂, hrules, hcons, h₁, h₂⟩ := exists_ranked_cons r rules
    rw [hrules, view_append] at ih
    rw [hcons, view_append]
    cases h : r.isIn q with
    | true =>
      rw [view_cons_of_isIn h, view_cons_of_isIn h]
      symm
      apply ranked_cons_eq ih.symm
      · intro v hv
        obtain ⟨b, hb, -, rfl⟩ := mem_view.mp hv
        exact h₁ b hb
      · intro v hv
        obtain ⟨b, hb, -, rfl⟩ := mem_view.mp hv
        exact h₂ b hb
    | false => rw [view_cons_of_not_isIn h, view_cons_of_not_isIn h, ih]

section groups

variable {q}

@[simp] theorem member?_unplaced (r : Rule) : member? r.unplaced = member? r := rfl

@[simp] theorem groupKey?_unplaced (r : Rule) : groupKey? r.unplaced = groupKey? r := rfl

theorem isIn_of_groupKey? {r : Rule} {k : GroupKey} (h : groupKey? r = some k) : r.isIn q = q k.action true := by
  obtain ⟨host, hm⟩ := groupKey?_eq_some.mp h
  obtain ⟨-, hb, ha, -⟩ := member?_eq_some.mp hm
  rw [Rule.isIn, Rule.isNetwork, ha, hb]

/-- A group is seen as a whole. -/
theorem groupHosts_view {k : GroupKey} (hk : q k.action true = true) (rules : List Rule) :
    groupHosts (view q rules) k = groupHosts rules k := by
  unfold groupHosts
  induction rules with
  | nil => rfl
  | cons r rules ih =>
    cases hr : r.isIn q with
    | true => rw [view_cons_of_isIn hr, List.filterMap_cons, List.filterMap_cons, member?_unplaced, ih]
    | false =>
      rw [view_cons_of_not_isIn hr, ih, List.filterMap_cons_none]
      cases hm : member? r with
      | none => rfl
      | some m =>
        have hne : m.2 ≠ k := by
          rintro rfl
          have := isIn_of_groupKey? (q := q) (groupKey?_eq_some.mpr ⟨m.1, hm⟩)
          rw [hr, hk] at this
          cases this
        simp [hne]

theorem isIn_groupRule {all : List Rule} {k : GroupKey} {r : Rule} (h : groupKey? r = some k) :
    (groupRule all k r).isIn q = r.isIn q := by
  rcases groupRule_cases all h with ⟨-, he⟩ | hg
  · rw [he]
  · rw [isIn_of_groupKey? h, Rule.isIn, Rule.isNetwork, hg.body, hg.action]

theorem unplaced_groupRule {all : List Rule} {k : GroupKey} (hk : q k.action true = true) (r : Rule) :
    (groupRule all k r).unplaced = groupRule (view q all) k r.unplaced := by
  unfold groupRule
  rw [groupHosts_view hk]
  split <;> rfl

/-- `done` and `done'` have the same groups among those that are seen. -/
theorem view_groupFrom {done done' : List GroupKey} (hdone : ∀ k, q k.action true = true → (k ∈ done' ↔ k ∈ done))
    (all rs : List Rule) : view q (groupFrom all done rs) = groupFrom (view q all) done' (view q rs) := by
  induction rs generalizing done done' with
  | nil => rfl
  | cons r rs ih =>
    cases hk : groupKey? r with
    | none =>
      simp only [groupFrom, hk]
      cases hr : r.isIn q with
      | true => simp only [view_cons_of_isIn hr, groupFrom, groupKey?_unplaced, hk, ih hdone]
      | false => rw [view_cons_of_not_isIn hr, view_cons_of_not_isIn hr, ih hdone]
    | some k =>
      have hq := isIn_of_groupKey? (q := q) hk
      cases hr : r.isIn q with
      | true =>
        rw [hr] at hq
        have hd := hdone k hq.symm
        simp only [view_cons_of_isIn hr, groupFrom, groupKey?_unplaced, hk, List.contains_eq_mem, decide_eq_true_eq]
        split_ifs with h₁ h₂ h₂
        · exact ih hdone
        · exact absurd (hd.mpr h₁) h₂
        · exact absurd (hd.mp h₂) h₁
        · have hin : (groupRule all k r).isIn q = true := (isIn_groupRule hk).trans hr
          rw [view_cons_of_isIn hin, unplaced_groupRule hq.symm]
          refine congrArg _ (ih fun j hj => ?_)
          rw [List.mem_cons, List.mem_cons, hdone j hj]
      | false =>
        rw [hr] at hq
        simp only [view_cons_of_not_isIn hr, groupFrom, hk]
        split_ifs
        · exact ih hdone
        · have hin : (groupRule all k r).isIn q = false := (isIn_groupRule hk).trans hr
          rw [view_cons_of_not_isIn hin]
          refine ih fun j hj => ?_
          have hne : j ≠ k := by
            rintro rfl
            rw [hj] at hq
            cases hq
          simp [hne, hdone j hj]

theorem view_grouped (rules : List Rule) : view q (grouped rules) = grouped (view q rules) :=
  view_groupFrom (fun _ _ => Iff.rfl) rules rules

end groups

section covers

variable [Regex.Library] {q} {defaults : TypeSet}

/-- A cover is seen with what it covers. -/
theorem isIn_of_covers {w r : Rule} (h : covers defaults w r = true) : w.isIn q = r.isIn q := by
  obtain ⟨v, o, p, p', ts, hw, hr, ha, -⟩ := covers_iff.mp h
  rw [Rule.isIn, Rule.isIn, Rule.isNetwork, Rule.isNetwork, hw, hr, ha]

theorem any_covers_view {r : Rule} (hr : r.isIn q = true) (kept : List Rule) :
    ((view q kept).any fun w => covers defaults w r.unplaced) = kept.any fun w => covers defaults w r := by
  rw [Bool.eq_iff_iff, List.any_eq_true, List.any_eq_true]
  constructor
  · rintro ⟨v, hv, hc⟩
    obtain ⟨w, hw, -, rfl⟩ := mem_view.mp hv
    exact ⟨w, hw, hc⟩
  · rintro ⟨w, hw, hc⟩
    exact ⟨w.unplaced, mem_view.mpr ⟨w, hw, (isIn_of_covers hc).trans hr, rfl⟩, hc⟩

def Cleared.view (q : Choice) (c : Cleared) : Cleared := ⟨Blocklist.view q c.kept, Blocklist.view q c.covered⟩

theorem view_clearFrom (kept rs : List Rule) :
    (clearFrom defaults kept rs).view q = clearFrom defaults (Blocklist.view q kept) (Blocklist.view q rs) := by
  induction rs generalizing kept with
  | nil => simp [clearFrom, Cleared.view, view_reverse]
  | cons r rs ih =>
    by_cases h : (kept.any fun w => covers defaults w r) = true
    · rw [clearFrom_of_covered rs h]
      cases hr : r.isIn q with
      | true =>
        rw [view_cons_of_isIn hr, clearFrom_of_covered _ (by rwa [any_covers_view hr]), ← ih]
        simp [Cleared.view, hr]
      | false =>
        rw [view_cons_of_not_isIn hr, ← ih]
        simp [Cleared.view, hr]
    · rw [clearFrom_of_not_covered rs h, ih]
      cases hr : r.isIn q with
      | true =>
        rw [view_cons_of_isIn hr, view_cons_of_isIn hr, clearFrom_of_not_covered _ (by rwa [any_covers_view hr])]
      | false => rw [view_cons_of_not_isIn hr, view_cons_of_not_isIn hr]

end covers

variable [Regex.Library]

theorem view_clear (defaults : TypeSet) (rules : List Rule) :
    (clear defaults rules).view q = clear defaults (view q rules) := view_clearFrom [] rules

/-- The result, seen through a choice, is the result of what is seen. -/
theorem view_rules (defaults : TypeSet) (rules : List Rule) :
    view q (ofRules defaults rules).rules = (ofRules defaults (view q rules)).rules := by
  have h := view_clear q defaults (grouped (ranked (distinct rules)))
  rw [view_grouped, view_ranked, view_distinct] at h
  exact congrArg Cleared.kept h

theorem view_covered (defaults : TypeSet) (rules : List Rule) :
    view q (ofRules defaults rules).covered = (ofRules defaults (view q rules)).covered := by
  have h := view_clear q defaults (grouped (ranked (distinct rules)))
  rw [view_grouped, view_ranked, view_distinct] at h
  exact congrArg Cleared.covered h

end Reduction

end Blocklist
