import Blocklist.Proofs.Reduction.Account
import Blocklist.Regex.Admissible

/-! A reduction keeps every decision of the request engine. Of the engine no more is taken than the wildcards'
regular expressions, that a group of hosts is matched if one of them is, and that a match of a text without
stars contains the text. -/

namespace Blocklist

open Wildcard Reduction

structure Request where
  url : Text
  type : ResourceType
  /-- The site that sends the request. -/
  initiator : Text
  /-- It is sent to another site. -/
  thirdParty : Bool

/-- The text that an address has to contain for the pattern to match, unless it has stars. -/
def Pattern.literal? : Pattern → Option Text
  | .hostAnchor t | .hostStart t | .startAnchor t | .endAnchor t | .substring t => some t
  | .wildcard _ | .regex _ | .hostGroup _ => none

/-- A request engine: how it matches addresses, and which domains it counts a site to. -/
structure Engine where
  hits : Pattern → Text → Bool
  within : Text → Text → Bool
  hits_wildcard : ∀ v u, hits (.wildcard v) u = true ↔ Finds (Wildcard.regex v) u
  hits_hostGroup : ∀ hs u, hits (.hostGroup hs) u = true ↔ ∃ h ∈ hs, hits (.hostAnchor h) u = true
  hits_literal : ∀ p t u, p.literal? = some t → '*' ∉ t → hits p u = true → t <:+: u
  hits_regex : ∀ t u, (∀ c ∈ t, c ∉ operators) → hits (.regex t) u = true → ∃ s, DotsFilled t s ∧ s <:+: u

namespace Engine

variable (e : Engine) (defaults : TypeSet) (q : Request)

def admits (o : Options) : Bool :=
  (o.initiators.included.isEmpty || o.initiators.included.names.any (e.within q.initiator)) &&
    !o.initiators.excluded.names.any (e.within q.initiator) && o.thirdParty.all (· == q.thirdParty)

/-- The rule matches the request. Rules about page elements match none. -/
def applies (r : Rule) : Bool :=
  match r.body with
  | .network p o => e.hits p q.url && (o.effectiveTypes defaults).contains q.type && e.admits q o
  | _ => false

def top? (a : Action) (rules : List Rule) : Option Nat :=
  ((rules.filter fun r => r.action == a && e.applies defaults q r).map (·.priority.toNat)).max?

/-- The action of the highest matching rule that blocks or allows; an exception wins a tie. -/
def decision (rules : List Rule) : Option Action :=
  match e.top? defaults q .allow rules, e.top? defaults q .block rules with
  | some a, some b => if b ≤ a then some .allow else some .block
  | some _, none => some .allow
  | none, some _ => some .block
  | none, none => none

end Engine

theorem TypeSet.contains_of_includes {s t : TypeSet} {r : ResourceType} (h : s.includes t = true)
    (hr : t.contains r = true) : s.contains r = true := by
  simp only [includes, beq_iff_eq] at h
  simp only [contains] at hr ⊢
  rw [← h, BitVec.getLsbD_and, Bool.and_eq_true] at hr
  exact hr.1

namespace Engine

variable {e : Engine} {defaults : TypeSet} {q : Request}

theorem applies_network {r : Rule} {p : Pattern} {o : Options} (hb : r.body = .network p o) :
    e.applies defaults q r = true ↔
      e.hits p q.url = true ∧ (o.effectiveTypes defaults).contains q.type = true ∧ e.admits q o = true := by
  simp [applies, hb, and_assoc]

theorem applies_congr {r s : Rule} (h : r.body = s.body) : e.applies defaults q r = e.applies defaults q s := by
  simp only [applies, h]

theorem admits_of_anyInitiator {o : Options} (h : o.anyInitiator = true) : e.admits q o = true := by
  simp only [Options.anyInitiator, Scope.isEmpty, NameSet.isEmpty, Bool.and_eq_true, List.isEmpty_iff,
    Option.isNone_iff_eq_none] at h
  simp [admits, NameSet.isEmpty, h.1.1, h.1.2, h.2]

theorem admits_of_subsumes {o p : Options} (h : o.subsumes p defaults = true) (hp : e.admits q p = true) :
    e.admits q o = true := by
  simp only [Options.subsumes, Bool.and_eq_true, Bool.or_eq_true, beq_iff_eq] at h
  rcases h.1 with hany | ⟨hi, ht⟩
  · exact admits_of_anyInitiator hany
  · simpa only [admits, hi, ht] using hp

theorem types_of_subsumes {o p : Options} (h : o.subsumes p defaults = true)
    (hp : (p.effectiveTypes defaults).contains q.type = true) :
    (o.effectiveTypes defaults).contains q.type = true := by
  simp only [Options.subsumes, Bool.and_eq_true] at h
  exact TypeSet.contains_of_includes h.2 hp

/-- A matched address contains a plain text of the pattern, if the pattern can have a cover at all. -/
theorem exists_plain {p : Pattern} {ts : List Text} {u : Text} (ht : coverTexts? p = some ts)
    (hstar : ∀ t ∈ ts, '*' ∉ t) (hu : e.hits p u = true) : ∃ s, p.Plain s ∧ s <:+: u := by
  cases p with
  | wildcard => cases ht
  | regex t =>
    obtain ⟨ho, -⟩ := coverTexts?_regex ht
    obtain ⟨s, hs, hsu⟩ := e.hits_regex t u ho hu
    exact ⟨s, ⟨ho, hs⟩, hsu⟩
  | hostGroup hs =>
    obtain rfl := Option.some.inj ht
    obtain ⟨h, hh, hhu⟩ := (e.hits_hostGroup hs u).mp hu
    have := hstar _ (List.mem_map_of_mem hh)
    exact ⟨h, hh, e.hits_literal _ h u rfl (by simpa [Pattern.anchorText] using this) hhu⟩
  | hostAnchor t | hostStart t | startAnchor t | endAnchor t | substring t =>
    obtain rfl := Option.some.inj ht
    have := hstar _ (List.mem_singleton_self _)
    exact ⟨t, rfl, e.hits_literal _ t u rfl (by simpa [Pattern.anchorText] using this) hu⟩

theorem marks_subset {p : Pattern} {c : Char} (h : c ∈ p.marks) : c ∈ ['|', '^', anyChar] := by
  cases p <;> grind [Pattern.marks]

/-- No wildcard among the rules names a character that only texts for a cover have. -/
def Unmarked (rules : List Rule) : Prop :=
  ∀ r ∈ rules, ∀ v o, r.body = .network (.wildcard v) o → ∀ c ∈ ['|', '^', anyChar], c ∉ v

theorem Unmarked.ofRules [Regex.Library] {rules : List Rule} (h : Unmarked rules) : Unmarked (ofRules defaults rules).rules := by
  intro o ho v o' hb
  rcases peak_or_groupOf ho with hp | ⟨hs, q, hg, -⟩
  · obtain ⟨r, hr, hk, -⟩ := hp.attained
    simp only [Rule.key, Rule.Key.mk.injEq] at hk
    exact h r hr v o' (hk.2.trans hb)
  · cases hb.symm.trans hg

/-- A rule that stands for another matches every request the other matches. -/
theorem applies_of_standsFor {o r : Rule} (h : StandsFor defaults o r)
    (hv : ∀ v o', o.body = .network (.wildcard v) o' → ∀ c ∈ ['|', '^', anyChar], c ∉ v)
    (hr : e.applies defaults q r = true) : e.applies defaults q o = true := by
  cases h with
  | same hb => rwa [applies_congr hb]
  | group _ hrb hob hmem =>
    rw [applies_network hrb] at hr
    exact (applies_network hob).mpr ⟨(e.hits_hostGroup _ _).mpr ⟨_, hmem, hr.1⟩, hr.2⟩
  | cover hrb hob hs ht hf =>
    obtain ⟨hu, htype, hadm⟩ := (applies_network hrb).mp hr
    obtain ⟨s, hplain, hsu⟩ := exists_plain ht (fun t htm => (hf t htm).1) hu
    have hfind := finds_plain ht (fun t htm => (hf t htm).2) (fun c hc => hv _ _ hob c (marks_subset hc)) hplain
    exact (applies_network hob).mpr ⟨(e.hits_wildcard _ _).mpr (hfind.mono hsu), types_of_subsumes hs htype,
      admits_of_subsumes hs hadm⟩

/-- Each rule of the result that matches a request has a given one behind it that matches it and ranks alike. -/
theorem exists_applies_of_ofRules [Regex.Library] {rules : List Rule} {o : Rule} (ho : o ∈ (ofRules defaults rules).rules)
    (h : e.applies defaults q o = true) :
    ∃ r ∈ rules, r.action = o.action ∧ e.applies defaults q r = true ∧ r.priority = o.priority := by
  rcases peak_or_groupOf ho with hp | ⟨hs, o', hb, -, hpeak⟩
  · obtain ⟨r, hr, hk, hpr⟩ := hp.attained
    simp only [Rule.key, Rule.Key.mk.injEq] at hk
    exact ⟨r, hr, hk.1, (applies_congr hk.2).trans h, hpr⟩
  · obtain ⟨hu, hrest⟩ := (applies_network hb).mp h
    obtain ⟨g, hg, hgu⟩ := (e.hits_hostGroup hs q.url).mp hu
    obtain ⟨r, hr, hk, hpr⟩ := (hpeak g hg).attained
    simp only [Rule.key, Rule.Key.mk.injEq] at hk
    exact ⟨r, hr, hk.1, (applies_network hk.2).mpr ⟨hgu, hrest⟩, hpr⟩

theorem max?_eq_of_dominated {xs ys : List Nat} (hxy : ∀ x ∈ xs, ∃ y ∈ ys, x ≤ y)
    (hyx : ∀ y ∈ ys, ∃ x ∈ xs, y ≤ x) : xs.max? = ys.max? := by
  cases hx : xs.max? with
  | none =>
    obtain rfl := List.max?_eq_none_iff.mp hx
    have : ys = [] := List.eq_nil_iff_forall_not_mem.mpr fun y hy => by simpa using hyx y hy
    rw [this]
    rfl
  | some m =>
    obtain ⟨hm, hmax⟩ := List.max?_eq_some_iff.mp hx
    obtain ⟨n, hn, hmn⟩ := hxy m hm
    have hle : ∀ y ∈ ys, y ≤ m := fun y hy => by
      obtain ⟨x, hxm, hyx⟩ := hyx y hy
      exact Nat.le_trans hyx (hmax x hxm)
    have : n = m := Nat.le_antisymm (hle n hn) hmn
    exact (List.max?_eq_some_iff.mpr ⟨this ▸ hn, hle⟩).symm

theorem mem_tops {a : Action} {rules : List Rule} {n : Nat} :
    n ∈ (rules.filter fun r => r.action == a && e.applies defaults q r).map (·.priority.toNat) ↔
      ∃ r ∈ rules, r.action = a ∧ e.applies defaults q r = true ∧ r.priority.toNat = n := by
  simp [and_assoc]

theorem top?_ofRules [Regex.Library] {rules : List Rule} (h : Unmarked rules) (a : Action) :
    e.top? defaults q a (ofRules defaults rules).rules = e.top? defaults q a rules := by
  refine max?_eq_of_dominated (fun n hn => ?_) (fun n hn => ?_)
  · obtain ⟨o, ho, rfl, happ, rfl⟩ := mem_tops.mp hn
    obtain ⟨r, hr, hra, hapr, hp⟩ := exists_applies_of_ofRules ho happ
    exact ⟨_, mem_tops.mpr ⟨r, hr, hra, hapr, rfl⟩, by rw [hp]⟩
  · obtain ⟨r, hr, rfl, happ, rfl⟩ := mem_tops.mp hn
    obtain ⟨o, ho, hoa, hp, hs⟩ := exists_standsFor defaults hr
    have happo := applies_of_standsFor hs (fun v o' hb => h.ofRules o ho v o' hb) happ
    exact ⟨_, mem_tops.mpr ⟨o, ho, hoa, happo, rfl⟩, UInt32.le_iff_toNat_le.mp hp⟩

theorem decision_ofRules [Regex.Library] (e : Engine) (defaults : TypeSet) (q : Request) {rules : List Rule} (h : Unmarked rules) :
    e.decision defaults q (ofRules defaults rules).rules = e.decision defaults q rules := by
  unfold decision
  rw [top?_ofRules h .allow, top?_ofRules h .block]

def textual : Engine where
  hits
    | .wildcard v, u => occursIn v u
    | .regex t, u => u.tails.any fun s => decide (DotsFilled t (s.take t.length))
    | .startAnchor t, u => decide (t <+: u)
    | .endAnchor t, u => decide (t <:+ u)
    | .hostAnchor t, u | .hostStart t, u | .substring t, u => decide (t <:+: u)
    | .hostGroup hs, u => hs.any fun h => decide (h <:+: u)
  within s d := (s :: parentDomains s).contains d
  hits_wildcard _ _ := occursIn_iff_finds
  hits_hostGroup hs u := by simp
  hits_literal p t u hp _ hu := by
    cases p <;> simp only [Pattern.literal?, Option.some.injEq, reduceCtorEq] at hp <;> subst hp
    case startAnchor => exact (of_decide_eq_true hu).isInfix
    case endAnchor => exact (of_decide_eq_true hu).isInfix
    all_goals exact of_decide_eq_true hu
  hits_regex t u _ hu := by
    obtain ⟨s, hs, hd⟩ := List.any_eq_true.mp hu
    have hsu : s <:+ u := (List.mem_tails s u).mp hs
    exact ⟨_, of_decide_eq_true hd, (List.take_prefix _ _).isInfix.trans hsu.isInfix⟩

def mixedRules : List Rule :=
  [⟨.block, .network (.wildcard "*ads*".toList) {}, 1, [], 1⟩,
   ⟨.block, .network (.hostAnchor "ads.example".toList) {}, 1, [], 2⟩,
   ⟨.block, .network (.hostAnchor "a.example".toList) { thirdParty := some true }, 1, [], 3⟩,
   ⟨.block, .network (.hostAnchor "b.example".toList) { thirdParty := some true }, 1, [], 4⟩,
   ⟨.allow, .network (.endAnchor "/ok.js".toList) {}, 1, [], 5⟩]

def scriptRequest (url : String) : Request := ⟨url.toList, .script, "shop.example".toList, true⟩

theorem decision_mixedRules : Unmarked mixedRules ∧
    textual.decision .full (scriptRequest "https://ads.example/x.js") (ofRules .full mixedRules).rules = some .block ∧
    textual.decision .full (scriptRequest "https://b.example/x.js") (ofRules .full mixedRules).rules = some .block ∧
    textual.decision .full (scriptRequest "https://ads.example/ok.js") (ofRules .full mixedRules).rules = some .allow ∧
    textual.decision .full (scriptRequest "https://shop.example/") (ofRules .full mixedRules).rules = none := by
  have h : Unmarked mixedRules := by
    intro r hr v o hb
    simp only [mixedRules, List.mem_cons, List.not_mem_nil, or_false] at hr
    rcases hr with rfl | rfl | rfl | rfl | rfl <;> cases hb
    exact List.forall_iff_forall_mem.mp (by decide)
  refine ⟨h, ?_⟩
  simp only [decision_ofRules _ _ _ h]
  decide

end Engine

end Blocklist
