import Blocklist.Proofs.Reading

/-! Conditions tell filters apart. What the request engine is given for a pattern can be read back, and gives the pattern
up to two freedoms of writing: a host that stands alone says the same with and without a separator behind it, and a plain
text says the same as the text between stars. -/

namespace Blocklist.Pattern

/-- Two patterns that the engine is not told apart. -/
inductive Twins : Pattern → Pattern → Prop
  | host {h : Text} (isHost : isHostname h = true) : Twins (.hostAnchor h) (.hostStart h)
  | plain (t : Text) : Twins (.substring t) (.wildcard ('*' :: t ++ ['*']))

/-- Of two such patterns, the one that both are emitted as. -/
def standard : Pattern → Pattern
  | .hostStart h => if isHostname h then .hostAnchor h else .hostStart h
  | .substring t => .wildcard ('*' :: t ++ ['*'])
  | p => p

def ofCondition : MatchCondition → Pattern
  | .urlFilter t | .regexFilter t => ofText t
  | .requestDomains [h] => .hostAnchor h
  | .requestDomains hs => .hostGroup hs

theorem condition_standard (p : Pattern) : p.standard.condition = p.condition := by
  cases p with
  | hostStart h => by_cases hh : isHostname h = true <;> simp [standard, condition, hh]
  | substring t => rfl
  | hostAnchor | startAnchor | endAnchor | wildcard | regex | hostGroup => rfl

/-- With a star at both ends no anchor is looked for. -/
theorem ofText_starred (t : Text) : ofText ('*' :: t ++ ['*']) = .wildcard ('*' :: t ++ ['*']) := by
  have hbars : ['|', '|'].isPrefixOf? ('*' :: t ++ ['*']) = none := rfl
  have hbar : ['|'].isPrefixOf? ('*' :: t ++ ['*']) = none := rfl
  have hend : ['|'].isSuffixOf? ('*' :: t ++ ['*']) = none := by
    rw [isSuffixOf?_eq_none, List.singleton_suffix_iff_getLast?_eq_some, List.getLast?_concat]
    decide
  simp only [ofText, hbars, hbar, hend]
  exact if_pos (by simp)

/-- The condition of a pattern that is read from its written form says the pattern in its standard form. -/
theorem ofCondition_condition {p : Pattern} {w : Text} (hw : p.texts = [w]) (hread : ofText w = p) :
    ofCondition p.condition = p.standard := by
  cases p with
  | hostAnchor h =>
    obtain rfl : anchorText h = w := List.singleton_inj.mp hw
    by_cases hh : isHostname h = true
    · simp [condition, hh, ofCondition, standard]
    · simp [condition, hh, ofCondition, standard, hread]
  | hostStart h =>
    obtain rfl : ['|', '|'] ++ h = w := List.singleton_inj.mp hw
    by_cases hh : isHostname h = true
    · simp [condition, hh, ofCondition, standard]
    · rw [condition, if_neg hh, ofCondition, hread, standard, if_neg hh]
  | startAnchor t | endAnchor t | wildcard t | regex t =>
    obtain rfl := List.singleton_inj.mp hw
    exact hread
  | substring t => exact ofText_starred t
  | hostGroup hs => exact absurd hread (ofText_ne_hostGroup w hs)

namespace Twins

variable {p q r : Pattern}

theorem standard_eq (h : Twins p q) : p.standard = q.standard := by
  cases h with
  | host hh => simp [standard, hh]
  | plain t => rfl

theorem left_unique (h : Twins p r) (h' : Twins q r) : p = q := by
  cases h with
  | host =>
    cases h'
    rfl
  | plain t =>
    generalize hr : '*' :: t ++ ['*'] = w at h'
    cases h' with
    | plain u => rw [List.append_cancel_right (List.cons.inj hr).2]

theorem right_unique (h : Twins p q) (h' : Twins p r) : q = r := by
  cases h <;> cases h' <;> rfl

/-- The second of two twins is no first one. -/
theorem not_chained (h : Twins p q) : ¬ Twins q r := by
  intro h'
  cases h <;> cases h'

end Twins

theorem twins_standard (p : Pattern) : p.standard = p ∨ Twins p.standard p ∨ Twins p p.standard := by
  cases p with
  | hostStart h =>
    by_cases hh : isHostname h = true
    · rw [standard, if_pos hh]
      exact Or.inr (Or.inl (.host hh))
    · exact Or.inl (if_neg hh)
  | substring t => exact Or.inr (Or.inr (.plain t))
  | hostAnchor | startAnchor | endAnchor | wildcard | regex | hostGroup => exact Or.inl rfl

theorem standard_eq_iff {p q : Pattern} : p.standard = q.standard ↔ p = q ∨ Twins p q ∨ Twins q p := by
  constructor
  · intro h
    have hp := twins_standard p
    have hq := twins_standard q
    rw [← h] at hq
    generalize p.standard = s at hp hq
    rcases hp with rfl | hp | hp <;> rcases hq with rfl | hq | hq
    · exact Or.inl rfl
    · exact Or.inr (Or.inl hq)
    · exact Or.inr (Or.inr hq)
    · exact Or.inr (Or.inr hp)
    · exact Or.inl (hp.right_unique hq)
    · exact absurd hp hq.not_chained
    · exact Or.inr (Or.inl hp)
    · exact absurd hq hp.not_chained
    · exact Or.inl (hp.left_unique hq)
  · rintro (rfl | h | h)
    · rfl
    · exact h.standard_eq
    · exact h.standard_eq.symm

/-- Two filters are emitted with the same condition only if they are read as the same pattern or as twins. -/
theorem condition_ofText_eq_iff (a b : Text) :
    (ofText a).condition = (ofText b).condition ↔
      ofText a = ofText b ∨ Twins (ofText a) (ofText b) ∨ Twins (ofText b) (ofText a) := by
  rw [← standard_eq_iff]
  constructor
  · intro h
    obtain ⟨v, hv, -, hreadv⟩ := exists_texts_ofText a
    obtain ⟨w, hw, -, hreadw⟩ := exists_texts_ofText b
    rw [← ofCondition_condition hv hreadv, h, ofCondition_condition hw hreadw]
  · intro h
    rw [← condition_standard, h, condition_standard]

-- both kinds of twins are written in filter lists
example : (ofText "||ads.com^".toList).condition = (ofText "||Ads.com".toList).condition ∧
    (ofText "banner".toList).condition = (ofText "*banner*".toList).condition := by decide

end Blocklist.Pattern
