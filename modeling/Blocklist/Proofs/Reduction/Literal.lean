import Blocklist.FilterList
import Blocklist.Proofs.Reduction.Account
import Blocklist.Regex.Admissible

/-! Whether a covered rule is really matched by what stays. Covers are looked for in the written form of a rule,
with its marks and stand-ins, so a wildcard that names such a character is taken for a cover of addresses it
does not match. All other covers are sound. -/

namespace Blocklist

open Wildcard Reduction

/-- The pattern matches an address by its letters alone. Of a host only its occurrence is asked, and a wildcard or
an expression with operators has no such reading. -/
def Pattern.MatchesLiterally : Pattern → Text → Prop
  | .substring t, u | .hostAnchor t, u | .hostStart t, u => t <:+: u
  | .startAnchor t, u => t <+: u
  | .endAnchor t, u => t <:+ u
  | .regex t, u => (∀ c ∈ t, c ∉ operators) ∧ ∃ s, DotsFilled t s ∧ s <:+: u
  | .hostGroup hs, u => ∃ h ∈ hs, h <:+: u
  | .wildcard _, _ => False

theorem Pattern.exists_plain {p : Pattern} {u : Text} (h : p.MatchesLiterally u) : ∃ s, p.Plain s ∧ s <:+: u := by
  cases p with
  | wildcard => exact h.elim
  | regex =>
    obtain ⟨ho, s, hs, hsu⟩ := h
    exact ⟨s, ⟨ho, hs⟩, hsu⟩
  | hostGroup =>
    obtain ⟨s, hs, hsu⟩ := h
    exact ⟨s, hs, hsu⟩
  | startAnchor t => exact ⟨t, rfl, List.IsPrefix.isInfix h⟩
  | endAnchor t => exact ⟨t, rfl, List.IsSuffix.isInfix h⟩
  | hostAnchor t | hostStart t | substring t => exact ⟨t, rfl, h⟩

theorem Pattern.Plain.matchesLiterally {p : Pattern} {s : Text} (h : p.Plain s) : p.MatchesLiterally s := by
  cases p with
  | wildcard => exact h.elim
  | regex => exact ⟨h.1, s, h.2, List.infix_rfl⟩
  | hostGroup => exact ⟨s, h, List.infix_rfl⟩
  | startAnchor t =>
    obtain rfl : s = t := h
    exact List.prefix_rfl
  | endAnchor t =>
    obtain rfl : s = t := h
    exact List.suffix_rfl
  | hostAnchor t | hostStart t | substring t =>
    obtain rfl : s = t := h
    exact List.infix_rfl

namespace Reduction

def WildcardFound (rules : List Rule) (a : Action) (u : Text) : Prop :=
  ∃ w ∈ rules, w.action = a ∧ ∃ v o, w.body = .network (.wildcard v) o ∧ Finds (Wildcard.regex v) u

theorem WildcardFound.mono {rules : List Rule} {a : Action} {s u : Text} (h : WildcardFound rules a s)
    (hsu : s <:+: u) : WildcardFound rules a u := by
  obtain ⟨w, hw, ha, v, o, hb, hf⟩ := h
  exact ⟨w, hw, ha, v, o, hb, hf.mono hsu⟩

theorem wildcardFound_plain [Regex.Library] {defaults : TypeSet} {rules : List Rule} {w c : Rule} {p : Pattern} {q : Options}
    {s : Text} (hw : w ∈ rules) (hcov : covers defaults w c = true) (hb : c.body = .network p q)
    (hm : ∀ v o, w.body = .network (.wildcard v) o → ∀ m ∈ p.marks, m ∉ v) (hs : p.Plain s) :
    WildcardFound rules c.action s := by
  obtain ⟨v, o, p', q', ts, hwb, hcb, ha, -, -, ht, hf⟩ := covers_iff.mp hcov
  obtain ⟨rfl, rfl⟩ := Body.network.inj (hb.symm.trans hcb)
  exact ⟨w, hw, ha, v, o, hwb, finds_plain ht (fun t htm => (hf t htm).2) (hm v o hwb) hs⟩

/-- What a covered rule matches literally is matched by a wildcard that stays exactly if its plain texts are. This
is so whenever one of its covers, of which there is at least one, names no mark of the rule's written form. -/
theorem covered_literal_iff [Regex.Library] (l : FilterList) (defaults : TypeSet) {c : Rule} {p : Pattern} {q : Options}
    (hc : c ∈ (ofRules defaults l.read.rules).covered) (hb : c.body = .network p q) :
    ((∀ u, p.MatchesLiterally u → WildcardFound (ofRules defaults l.read.rules).rules c.action u) ↔
      ∀ s, p.Plain s → WildcardFound (ofRules defaults l.read.rules).rules c.action s) ∧
    (∃ w ∈ (ofRules defaults l.read.rules).rules, covers defaults w c = true) ∧
    ∀ w ∈ (ofRules defaults l.read.rules).rules, covers defaults w c = true →
      (∀ v o, w.body = .network (.wildcard v) o → ∀ m ∈ p.marks, m ∉ v) →
      ∀ u, p.MatchesLiterally u → WildcardFound (ofRules defaults l.read.rules).rules c.action u := by
  refine ⟨⟨fun h s hs => h s hs.matchesLiterally, fun h u hu => ?_⟩, ?_, fun w hw hcov hm u hu => ?_⟩
  · obtain ⟨s, hs, hsu⟩ := Pattern.exists_plain hu
    exact (h s hs).mono hsu
  · obtain ⟨w, hw, hcov, -⟩ := exists_cover hc
    exact ⟨w, hw, hcov⟩
  · obtain ⟨s, hs, hsu⟩ := Pattern.exists_plain hu
    exact (wildcardFound_plain hw hcov hb hm hs).mono hsu

theorem wildcardFound_iff_any {rules : List Rule} {a : Action} {u : Text} :
    WildcardFound rules a u ↔ (rules.any fun w => w.action == a &&
      match w.body with
      | .network (.wildcard v) _ => occursIn v u
      | _ => false) = true := by
  simp only [WildcardFound, List.any_eq_true, Bool.and_eq_true, beq_iff_eq]
  refine exists_congr fun w => and_congr_right fun _ => and_congr_right fun _ => ?_
  split
  · rename_i v o hb
    simp [hb, occursIn_iff_finds]
  · rename_i hne
    simp only [Bool.false_eq_true, iff_false]
    rintro ⟨v, o, hb, -⟩
    exact hne v o hb

instance (rules : List Rule) (a : Action) (u : Text) : Decidable (WildcardFound rules a u) :=
  decidable_of_iff _ wildcardFound_iff_any.symm

def coveredList : FilterList := ⟨[], "*ads*\nadsbygoogle.js".toList⟩

theorem coveredList_sound : ∃ c ∈ (ofRules .full coveredList.read.rules).covered, ∃ p q, c.body = .network p q ∧
    ∀ u, p.MatchesLiterally u → WildcardFound (ofRules .full coveredList.read.rules).rules c.action u := by
  obtain ⟨hk, hc⟩ := ofRules_of_ranked .full (by decide : Ranked (distinct coveredList.read.rules))
  have hcov : ⟨.block, .network (.regex "adsbygoogle.js".toList) {}, 1, [], 2⟩ ∈
      (ofRules .full coveredList.read.rules).covered := by rw [hc]; decide
  have hw : ⟨.block, .network (.wildcard "*ads*".toList) {}, 1, [], 1⟩ ∈
      (ofRules .full coveredList.read.rules).rules := by rw [hk]; decide
  refine ⟨_, hcov, _, _, rfl, (covered_literal_iff coveredList .full hcov rfl).2.2 _ hw (by decide) ?_⟩
  rintro v o hb
  cases hb
  exact List.forall_iff_forall_mem.mp (by decide)

/-- A wildcard that names the bar of a start anchor, and one that names the stand-in for dots. -/
def barList : FilterList := ⟨[], "*|http*\n|http://ads".toList⟩

def standInList : FilterList := ⟨[], "*ads\u0001js*\nads.js".toList⟩

def UnsoundlyCovered [Regex.Library] (l : FilterList) : Prop :=
  ∃ c ∈ (ofRules .full l.read.rules).covered, ∃ p q, c.body = .network p q ∧
    ∃ u, p.MatchesLiterally u ∧ ¬ WildcardFound (ofRules .full l.read.rules).rules c.action u

theorem covered_unsound : UnsoundlyCovered barList ∧ UnsoundlyCovered standInList := by
  constructor
  · obtain ⟨hk, hc⟩ := ofRules_of_ranked .full (by decide : Ranked (distinct barList.read.rules))
    unfold UnsoundlyCovered
    rw [hk, hc]
    refine ⟨⟨.block, .network (.startAnchor "http://ads".toList) {}, 1, [], 2⟩, by decide, _, _, rfl,
      "http://ads".toList, List.prefix_rfl, by decide⟩
  · obtain ⟨hk, hc⟩ := ofRules_of_ranked .full (by decide : Ranked (distinct standInList.read.rules))
    unfold UnsoundlyCovered
    rw [hk, hc]
    refine ⟨⟨.block, .network (.regex "ads.js".toList) {}, 1, [], 2⟩, by decide, _, _, rfl,
      "adsXjs".toList, ⟨List.forall_iff_forall_mem.mp (by decide), "adsXjs".toList, by decide, List.infix_rfl⟩,
      by decide⟩

end Reduction

end Blocklist
