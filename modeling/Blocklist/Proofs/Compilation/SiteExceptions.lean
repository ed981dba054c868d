import Blocklist.Proofs.Emission
import Blocklist.Proofs.Reading
import Blocklist.Proofs.Reduction.Decision
import Blocklist.Proofs.Sets

/-! The exceptions for allowed sites reach the output. A reduction may raise such an exception in rank, take its host
into a group, or leave it out because a wildcard exception covers it. In each case a record comes out that allows the
site for at least the types asked for, whoever sends the request. -/

namespace Blocklist

open Wildcard

namespace TypeSet

theorem diff_empty (s : TypeSet) : s.diff .empty = s := by
  have h : s.bits &&& ~~~(0 : BitVec 12) = s.bits := BitVec.and_allOnes
  rw [diff, empty, h]

theorem toList_subset_of_includes {s t : TypeSet} (h : s.includes t = true) : t.toList ⊆ s.toList := by
  intro r hr
  rw [mem_toList] at hr ⊢
  exact contains_of_includes h hr

/-- A set with a nonempty part is not empty. -/
theorem isEmpty_of_includes {s t : TypeSet} (h : s.includes t = true) (ht : t.isEmpty = false) :
    s.isEmpty = false := by
  rw [Bool.eq_false_iff] at ht ⊢
  intro hs
  apply ht
  simp only [isEmpty, includes, beq_iff_eq] at hs h ⊢
  rw [← h, hs]
  exact BitVec.zero_and

end TypeSet

def Settings.exceptionTypes (s : Settings) : TypeSet :=
  if s.allowedTypeSet.isEmpty then s.defaultTypeSet else s.allowedTypeSet

theorem Settings.effectiveTypes_exception (s : Settings) :
    ({ types := s.allowedTypeSet } : Options).effectiveTypes s.defaultTypeSet = s.exceptionTypes := by
  unfold Options.effectiveTypes exceptionTypes
  cases s.allowedTypeSet.isEmpty with
  | true => rfl
  | false => exact TypeSet.diff_empty s.allowedTypeSet

namespace Options

/-- Options that say nothing about who sends the request. -/
theorem anyInitiator_iff {o : Options} : o.anyInitiator = true ↔
    o.initiators.included.isEmpty = true ∧ o.initiators.excluded.isEmpty = true ∧ o.thirdParty = none := by
  simp [anyInitiator, Scope.isEmpty, and_assoc]

/-- What admits the requests of every initiator is limited to none itself. -/
theorem anyInitiator_of_subsumes {o p : Options} {defaults : TypeSet} (h : o.subsumes p defaults = true)
    (hp : p.anyInitiator = true) : o.anyInitiator = true := by
  simp only [subsumes, Bool.and_eq_true, Bool.or_eq_true, beq_iff_eq] at h
  rcases h.1 with ho | ⟨hs, ht⟩
  · exact ho
  · rw [anyInitiator, hs, ht]
    exact hp

end Options

namespace AllowList

theorem mem_strip_of_allow {entries : List Text} {rules : List Rule} {r : Rule} (hr : r ∈ rules)
    (ha : r.action = .allow) : r ∈ strip entries rules := by
  refine List.mem_filter.mpr ⟨hr, ?_⟩
  simp [contradicts, ha]

end AllowList

structure Record.AllowsAnyInitiator (x : Record) : Prop where
  action : x.action = .allow
  priority : 10000 ≤ x.priority
  initiators : x.condition.initiatorDomains = none
  excluded : x.condition.excludedInitiatorDomains = none
  party : x.condition.party = none

def Record.NamesSite (x : Record) (d : Text) (types : TypeSet) : Prop :=
  ∃ hs, x.condition.requestDomains = some hs ∧ d ∈ hs ∧ x.condition.resourceTypes = some types.toList

/-- The record is that of the wildcard rule `r`, which is found in the anchored form of the domain, for at least these
types. -/
def Record.IncludesSite (defaults : TypeSet) (x : Record) (r : Rule) (d : Text) (types : TypeSet) : Prop :=
  ∃ v o ts, r.body = .network (.wildcard v) o ∧ ofRule? defaults x.id r = some x ∧
    x.condition.resourceTypes = some ts ∧ types.toList ⊆ ts ∧ Finds (Wildcard.regex v) (Pattern.anchorText d)

namespace Compilation

section

variable [Regex.Library]

/-- The exception for an allowed domain is among the rules that are reduced. -/
theorem exists_exception_mem_rules {s : Settings} (lists : List FilterList) {e d : Text} (he : e ∈ s.allowed)
    (hd : normalizeDomain? e = some d) : ∃ n, AllowList.exception s.allowedTypeSet d n ∈ (run s lists).rules := by
  have hn : AllowList.exception s.allowedTypeSet d _ ∈ AllowList.exceptions s.allowedTypeSet s.allowed :=
    AllowList.mem_exceptions.mpr ⟨d, AllowList.mem_domains.mpr ⟨e, he, hd⟩, rfl⟩
  exact ⟨_, AllowList.mem_strip_of_allow (List.mem_append_left _ hn) rfl⟩

/-- An exception that is kept without a limit on initiators, and has a type left, is emitted as one. -/
theorem exists_record_of_allow {s : Settings} {lists : List FilterList} {r : Rule} {p : Pattern} {o : Options}
    (hr : r ∈ (run s lists).kept) (hb : r.body = .network p o) (ha : r.action = .allow) (hp : 10000 ≤ r.priority)
    (ho : o.anyInitiator = true) (ht : (o.effectiveTypes s.defaultTypeSet).isEmpty = false) :
    ∃ x ∈ (run s lists).ruleset.records, x.AllowsAnyInitiator ∧ Record.ofRule? s.defaultTypeSet x.id r = some x ∧
      x.condition = Condition.ofNetwork p o (o.effectiveTypes s.defaultTypeSet) := by
  have hrec (id : UInt32) : Record.ofRule? s.defaultTypeSet id r =
      some ⟨id, r.priority, .allow, Condition.ofNetwork p o (o.effectiveTypes s.defaultTypeSet)⟩ :=
    Record.ofRule?_eq_some.mpr ⟨p, o, .allow, hb, Action.toRecord?_eq_allow.mpr ha, ht, rfl⟩
  obtain ⟨x, hx, hxr⟩ := exists_record_of_mem_kept hr (hrec 0)
  obtain ⟨hinc, hexc, hparty⟩ := Options.anyInitiator_iff.mp ho
  have he := Option.some.inj ((hrec x.id).symm.trans hxr)
  refine ⟨x, hx, ?_, hxr, by rw [← he]⟩
  rw [← he]
  exact ⟨rfl, hp, if_pos hinc, if_pos hexc, by simp [Condition.ofNetwork, hparty]⟩

/-- Without a limit on the rules every allowed domain keeps its exception: a record that names the domain, or that of a
wildcard which takes it in. -/
theorem exists_siteException (s : Settings) (lists : List FilterList) {e d : Text} (hmax : s.maxRules = none)
    (ht : s.exceptionTypes.isEmpty = false) (he : e ∈ s.allowed) (hd : normalizeDomain? e = some d) :
    ∃ x ∈ (run s lists).ruleset.records, x.AllowsAnyInitiator ∧
      (x.NamesSite d s.exceptionTypes ∨
        ∃ r ∈ (run s lists).kept, x.IncludesSite s.defaultTypeSet r d s.exceptionTypes) := by
  obtain ⟨n, hn⟩ := exists_exception_mem_rules lists he hd
  obtain ⟨r, hr, ha, hp, hfor⟩ := Reduction.exists_standsFor s.defaultTypeSet hn
  have hkept : r ∈ (run s lists).kept := by
    rw [kept_of_unlimited hmax]
    exact hr
  have htypes := s.effectiveTypes_exception
  have hhost : isHostname d = true := isHostname_of_normalizeDomain? hd
  cases hfor with
  | same hb =>
    obtain ⟨x, hx, hopen, -, hcond⟩ := exists_record_of_allow hkept hb ha hp rfl (htypes ▸ ht)
    refine ⟨x, hx, hopen, Or.inl ⟨[d], ?_, List.mem_singleton_self d, ?_⟩⟩
    · rw [hcond]
      simp [Condition.ofNetwork, Pattern.condition, hhost, Condition.ofMatch]
    · rw [hcond, htypes]
      rfl
  | group _ hgiven hb hmem =>
    obtain ⟨hpat, rfl⟩ := Body.network.inj hgiven
    obtain rfl := Pattern.hostAnchor.inj hpat
    obtain ⟨x, hx, hopen, -, hcond⟩ := exists_record_of_allow hkept hb ha hp rfl (htypes ▸ ht)
    refine ⟨x, hx, hopen, Or.inl ⟨_, ?_, hmem, ?_⟩⟩
    · rw [hcond]
      rfl
    · rw [hcond, htypes]
      rfl
  | @cover v p o q ts hgiven hb hscope htexts hfound =>
    obtain ⟨rfl, rfl⟩ := Body.network.inj hgiven
    obtain rfl := Option.some.inj htexts
    have hincl : (o.effectiveTypes s.defaultTypeSet).includes s.exceptionTypes = true := by
      rw [← htypes]
      exact (Bool.and_eq_true_iff.mp hscope).2
    obtain ⟨x, hx, hopen, hxr, hcond⟩ := exists_record_of_allow hkept hb ha hp
      (Options.anyInitiator_of_subsumes hscope rfl) (TypeSet.isEmpty_of_includes hincl ht)
    refine ⟨x, hx, hopen, Or.inr ⟨r, hkept, v, o, _, hb, hxr, by rw [hcond]; rfl, ?_, ?_⟩⟩
    · exact TypeSet.toList_subset_of_includes hincl
    · exact (hfound _ (List.mem_singleton_self _)).2

end

def storeSettings : Settings := { allowed := ["Store.com.".toList] }

def storeList : FilterList := ⟨[], "||cdn.store.com^\n@@*store*$document,subdocument,script".toList⟩

def storeWildcard : Rule :=
  ⟨.allow, .network (.wildcard "*store*".toList) { types := .ofList [.mainFrame, .subFrame, .script] }, 10001, [], 2⟩

/-- The site's own exception is left out, and the wildcard takes the site in. -/
theorem exists_siteException_store :
    (run storeSettings [storeList]).kept = [storeWildcard] ∧
    ∃ x ∈ (run storeSettings [storeList]).ruleset.records, x.AllowsAnyInitiator ∧
      (x.NamesSite "store.com".toList storeSettings.exceptionTypes ∨
        ∃ r ∈ (run storeSettings [storeList]).kept,
          x.IncludesSite storeSettings.defaultTypeSet r "store.com".toList storeSettings.exceptionTypes) := by
  have hd : normalizeDomain? "Store.com.".toList = some "store.com".toList := by decide
  refine ⟨?_, exists_siteException storeSettings [storeList] rfl (by decide) (List.mem_singleton_self _) hd⟩
  let site := AllowList.exception storeSettings.allowedTypeSet "store.com".toList 1
  have hdistinct : Reduction.distinct (run storeSettings [storeList]).rules = [site, storeWildcard] := by decide
  have hranked : Reduction.ranked [site, storeWildcard] = [storeWildcard, site] := by
    simp [Reduction.ranked, List.mergeSort, List.MergeSort.Internal.splitInTwo, site, AllowList.exception,
      Priority.allowedSite, storeWildcard]
  have hkept : (run storeSettings [storeList]).kept =
      (Reduction.clear storeSettings.defaultTypeSet (Reduction.grouped (Reduction.ranked
        (Reduction.distinct (run storeSettings [storeList]).rules)))).kept := rfl
  rw [hkept, hdistinct, hranked]
  decide

end Compilation

end Blocklist
