import Blocklist.Proofs.AllowList.Strip
import Blocklist.Proofs.Hostname
import Mathlib.Data.Finset.Card
import Mathlib.Data.List.Forall2

/-! The exceptions for allowed sites. Entries are gone through once, with the domains seen so far at hand; what comes out
is one exception for each domain, in the order of their first entries and under the places of these. A domain in its
stored form is an entry for itself, so the domains that come out give the same exceptions again. -/

namespace Blocklist.AllowList

def firstEntry (entries : List Text) (d : Text) : Nat := entries.findIdx fun e => normalizeDomain? e = some d

/-- The first entry for the domain stands at this place, counted from 1. -/
def FirstAt (entries : List Text) (d : Text) (place : Nat) : Prop :=
  ∃ before e after, entries = before ++ e :: after ∧ place = before.length + 1 ∧ normalizeDomain? e = some d ∧
    ∀ x ∈ before, normalizeDomain? x ≠ some d

/-- The domains of the entries that are not among those seen, each once, in the order of their first entries. -/
def newDomains (seen entries : List Text) : List Text := ((domains entries).filter (· ∉ seen)).eraseDups

section

variable {t c d : Text} {seen ts : List Text}

theorem firstEntry_cons_self (h : normalizeDomain? t = some d) : firstEntry (t :: ts) d = 0 := by
  simp [firstEntry, List.findIdx_cons, h]

theorem firstEntry_cons_of_ne (h : normalizeDomain? t ≠ some d) : firstEntry (t :: ts) d = firstEntry ts d + 1 := by
  simp [firstEntry, List.findIdx_cons, h]

theorem firstAt_firstEntry (h : d ∈ domains ts) : FirstAt ts d (firstEntry ts d + 1) := by
  induction ts with
  | nil => cases h
  | cons t ts ih =>
    by_cases ht : normalizeDomain? t = some d
    · rw [firstEntry_cons_self ht]
      exact ⟨[], t, ts, rfl, rfl, ht, by simp⟩
    · obtain ⟨e, he, hd⟩ := mem_domains.mp h
      have hts : e ∈ ts := (List.mem_cons.mp he).resolve_left fun heq => ht (heq ▸ hd)
      obtain ⟨before, e, after, hsplit, hplace, hd, hbefore⟩ := ih (mem_domains.mpr ⟨e, hts, hd⟩)
      rw [firstEntry_cons_of_ne ht, hplace]
      exact ⟨t :: before, e, after, by rw [hsplit, List.cons_append], rfl, hd, by simpa using ⟨ht, hbefore⟩⟩

theorem mem_newDomains : d ∈ newDomains seen ts ↔ d ∈ domains ts ∧ d ∉ seen := by
  simp [newDomains, List.mem_eraseDups]

theorem newDomains_cons_none (h : normalizeDomain? t = none) : newDomains seen (t :: ts) = newDomains seen ts := by
  rw [newDomains, domains, List.filterMap_cons_none h]
  rfl

theorem newDomains_cons_seen (h : normalizeDomain? t = some c) (hc : c ∈ seen) :
    newDomains seen (t :: ts) = newDomains seen ts := by
  rw [newDomains, domains, List.filterMap_cons_some h, List.filter_cons_of_neg (by simpa using hc)]
  rfl

theorem newDomains_cons_new (h : normalizeDomain? t = some c) (hc : c ∉ seen) :
    newDomains seen (t :: ts) = c :: newDomains (c :: seen) ts := by
  rw [newDomains, domains, List.filterMap_cons_some h, List.filter_cons_of_pos (by simpa using hc),
    List.eraseDups_cons, List.filter_filter, newDomains]
  congr 2
  refine List.filter_congr fun d _ => ?_
  by_cases hd : d = c <;> simp [hd]

end

section

variable (types : TypeSet)

/-- One exception comes out for each domain not seen before. -/
theorem exceptionsFrom_eq (seen : List Text) (n : Nat) (ts : List Text) :
    exceptionsFrom types seen n ts =
      (newDomains seen ts).map fun d => exception types d (n + firstEntry ts d) := by
  induction ts generalizing seen n with
  | nil => rfl
  | cons t ts ih =>
    -- the domains whose first entry comes later are one place further off
    have hlater {ds : List Text} (hne : ∀ d ∈ ds, normalizeDomain? t ≠ some d) :
        ds.map (fun d => exception types d (n + 1 + firstEntry ts d)) =
          ds.map fun d => exception types d (n + firstEntry (t :: ts) d) := by
      refine List.map_congr_left fun d hd => ?_
      rw [firstEntry_cons_of_ne (hne d hd), Nat.add_assoc, Nat.add_comm 1]
    unfold exceptionsFrom
    cases ht : normalizeDomain? t with
    | none =>
      rw [newDomains_cons_none ht, ← hlater fun d _ => by simp [ht]]
      exact ih seen (n + 1)
    | some c =>
      have hne {seen : List Text} (hc : c ∈ seen) : ∀ d ∈ newDomains seen ts, normalizeDomain? t ≠ some d := by
        intro d hd heq
        rw [ht, Option.some.injEq] at heq
        exact (mem_newDomains.mp hd).2 (heq ▸ hc)
      simp only [List.contains_eq_mem, decide_eq_true_eq]
      split_ifs with hc
      · rw [newDomains_cons_seen ht hc, ← hlater (hne hc)]
        exact ih seen (n + 1)
      · rw [newDomains_cons_new ht hc, List.map_cons, firstEntry_cons_self ht, ← hlater (hne List.mem_cons_self)]
        exact congrArg (_ :: ·) (ih (c :: seen) (n + 1))

/-- The exceptions carry some of the places, in order and each once. -/
theorem map_line_exceptionsFrom_sublist (seen : List Text) (n : Nat) (ts : List Text) :
    ((exceptionsFrom types seen n ts).map Rule.line).Sublist (List.range' n ts.length) := by
  induction ts generalizing seen n with
  | nil => exact List.Sublist.slnil
  | cons t ts ih =>
    rw [List.length_cons, List.range'_succ]
    unfold exceptionsFrom
    split
    · exact (ih seen (n + 1)).cons n
    · rename_i d _
      split_ifs
      · exact (ih seen (n + 1)).cons n
      · exact (ih (d :: seen) (n + 1)).cons_cons n

end

/-- Domains in their stored form are entries for themselves. -/
theorem newDomains_newDomains (seen ts : List Text) : newDomains seen (newDomains seen ts) = newDomains seen ts := by
  induction ts generalizing seen with
  | nil => rfl
  | cons t ts ih =>
    cases ht : normalizeDomain? t with
    | none => rw [newDomains_cons_none ht, ih]
    | some c =>
      by_cases hc : c ∈ seen
      · rw [newDomains_cons_seen ht hc, ih]
      · rw [newDomains_cons_new ht hc, newDomains_cons_new (normalizeDomain?_stored ht) hc, ih]

theorem newDomains_nil (entries : List Text) : newDomains [] entries = (domains entries).eraseDups := by
  simp [newDomains]

theorem exceptions_eq (types : TypeSet) (entries : List Text) :
    exceptions types entries =
      (domains entries).eraseDups.map fun d => exception types d (firstEntry entries d + 1) := by
  rw [exceptions, exceptionsFrom_eq, newDomains_nil]
  simp only [Nat.add_comm 1]

theorem mem_exceptions {types : TypeSet} {entries : List Text} {r : Rule} :
    r ∈ exceptions types entries ↔ ∃ d ∈ domains entries, exception types d (firstEntry entries d + 1) = r := by
  simp only [exceptions_eq, List.mem_map, List.mem_eraseDups]

theorem lines_increasing (types : TypeSet) (entries : List Text) :
    ((exceptions types entries).map Rule.line).Pairwise (· < ·) :=
  (List.pairwise_lt_range' (s := 1)).sublist (map_line_exceptionsFrom_sublist types [] 1 entries)

/-- No two domains have their first entry at the same place, so none comes twice. -/
theorem nodup_eraseDups_domains (entries : List Text) : (domains entries).eraseDups.Nodup := by
  have hlines := lines_increasing .full entries
  rw [exceptions_eq, List.map_map] at hlines
  exact List.Nodup.of_map _ (hlines.imp Nat.ne_of_lt)

theorem length_exceptions (types : TypeSet) (entries : List Text) :
    (exceptions types entries).length = (domains entries).toFinset.card := by
  rw [exceptions_eq, List.length_map, ← List.toFinset_card_of_nodup (nodup_eraseDups_domains entries)]
  congr 1
  ext d
  simp only [List.mem_toFinset, List.mem_eraseDups]

structure IsExceptionFor (types : TypeSet) (entries : List Text) (d : Text) (r : Rule) : Prop where
  action : r.action = .allow
  body : r.body = .network (.hostAnchor d) { types }
  priority : r.priority = 10000
  source : r.source = source
  line : FirstAt entries d r.line

/-- The exceptions are one for each domain that an entry stands for, in the order of the first entries; the domains are
host names in their stored form; and as entries they give the same exceptions, under other places. -/
theorem exceptions_canonical (types : TypeSet) (entries : List Text) :
    List.Forall₂ (IsExceptionFor types entries) (domains entries).eraseDups (exceptions types entries) ∧
    (domains entries).eraseDups.Nodup ∧
    ((exceptions types entries).map Rule.line).Pairwise (· < ·) ∧
    (∀ d ∈ (domains entries).eraseDups,
      isHostname d = true ∧ (∀ c ∈ d, c.isUpper = false) ∧ normalizeDomain? d = some d) ∧
    (exceptions types (domains entries).eraseDups).map ({ · with line := 0 }) =
      (exceptions types entries).map ({ · with line := 0 }) := by
  refine ⟨?_, nodup_eraseDups_domains entries, lines_increasing types entries, fun d hd => ?_, ?_⟩
  · rw [exceptions_eq, List.forall₂_map_right_iff, List.forall₂_same]
    intro d hd
    exact ⟨rfl, rfl, rfl, rfl, firstAt_firstEntry (List.mem_eraseDups.mp hd)⟩
  · obtain ⟨e, -, he⟩ := mem_domains.mp (List.mem_eraseDups.mp hd)
    exact ⟨isHostname_of_normalizeDomain? he, isUpper_of_normalizeDomain? he, normalizeDomain?_stored he⟩
  · have hdomains : (domains (domains entries).eraseDups).eraseDups = (domains entries).eraseDups := by
      simpa only [newDomains_nil] using newDomains_newDomains [] entries
    rw [exceptions_eq, exceptions_eq, hdomains, List.map_map, List.map_map]
    rfl

-- blanks are trimmed before dots, and an entry that is no host name keeps its place
example : (exceptions .full [". a.com".toList, "A.com..".toList, " a.com".toList, "b.org".toList]).map
    (fun r => (r.host?, r.line)) = [(some "a.com".toList, 2), (some "b.org".toList, 4)] := by decide

end Blocklist.AllowList
