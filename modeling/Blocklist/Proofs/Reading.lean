import Blocklist.Compilation
import Blocklist.Proofs.AllowList.Exceptions
import Blocklist.Proofs.NetworkLine

/-! What the rules of a compilation are before they are reduced. Each is read from a line of a list or is the
exception for an allowed site, and none is about a group of hosts. -/

namespace Blocklist

theorem Pattern.ofText_ne_hostGroup (t : Text) (hs : List Text) : Pattern.ofText t ≠ .hostGroup hs := by
  unfold Pattern.ofText ofUnanchored
  intro h
  repeat' split at h
  all_goals cases h

namespace NetworkLine

theorem ofText_action (t : Text) : (ofText t).action = .block ∨ (ofText t).action = .allow := by
  unfold ofText
  split
  · exact Or.inr rfl
  · exact Or.inl rfl

end NetworkLine

/-- What a line can give: a network rule at the rank of its action and options, or an element rule at the lowest. -/
inductive FromLine (r : Rule) : Prop
  | network (t : Text) (o : Options) (action : r.action = .block ∨ r.action = .allow)
    (body : r.body = .network (Pattern.ofText t) o) (priority : r.priority = Priority.ofNetwork r.action o)
  | element (t : Target) (action : r.action = .hide ∨ r.action = .unhide)
    (body : r.body = .cosmetic t ∨ r.body = .procedural t) (priority : r.priority = Priority.base)

theorem FromLine.body_ne_hostGroup {r : Rule} (h : FromLine r) (hs : List Text) (o : Options) :
    r.body ≠ .network (.hostGroup hs) o := by
  intro hb
  cases h with
  | network t q _ hbody => exact Pattern.ofText_ne_hostGroup t hs (Body.network.inj (hbody.symm.trans hb)).1
  | element t _ hbody =>
    rw [hb] at hbody
    simp at hbody

variable [Regex.Library]

theorem fromLine_of_ofLine? {source line : Text} {n : Nat} {r : Rule}
    (h : Rule.ofLine? source n line = .ok (some r)) : FromLine r := by
  rcases Line.rule?_cases h with ⟨l, p, o, hl, hr, rfl⟩ | ⟨mark, pages, selector, -, -, rfl⟩
  · obtain ⟨-, -, -, rfl⟩ := Line.ofText_eq_network_iff.mp hl
    obtain ⟨-, -, -, rfl⟩ := NetworkLine.read_eq_ok_iff.mp hr
    exact .network _ o (NetworkLine.ofText_action line.trim) rfl rfl
  · refine .element ⟨selector.trim, Scope.addAll {} Target.isSeparator pages⟩ ?_ ?_ rfl
    · unfold Line.elementAction
      split_ifs <;> simp
    · unfold Line.elementBody
      split_ifs <;> simp

theorem FilterList.mem_readFrom {source : Text} {n : Nat} {ts : List Text} {x : LineReading}
    (h : x ∈ readFrom source n ts) : ∃ m t, x = ⟨m, t, Rule.ofLine? source m t⟩ := by
  induction ts generalizing n with
  | nil => cases h
  | cons t ts ih =>
    rcases List.mem_cons.mp h with rfl | h
    · exact ⟨n, t, rfl⟩
    · exact ih h

theorem FilterList.exists_line_of_mem_read {l : FilterList} {r : Rule} (h : r ∈ l.read.rules) :
    ∃ n t, Rule.ofLine? l.name n t = .ok (some r) := by
  obtain ⟨x, hx, hr⟩ := List.mem_filterMap.mp h
  obtain ⟨n, t, rfl⟩ := FilterList.mem_readFrom hx
  unfold LineReading.rule? at hr
  split at hr
  · rename_i s hs
    exact ⟨n, t, hr ▸ hs⟩
  · cases hr

theorem fromLine_of_mem_read {l : FilterList} {r : Rule} (h : r ∈ l.read.rules) : FromLine r := by
  obtain ⟨n, t, ht⟩ := FilterList.exists_line_of_mem_read h
  exact fromLine_of_ofLine? ht

namespace Compilation

theorem mem_allRules {s : Settings} {lists : List FilterList} {r : Rule}
    (h : r ∈ allRules s (lists.map FilterList.read)) :
    (∃ d n, r = AllowList.exception s.allowedTypeSet d n) ∨ FromLine r := by
  rcases List.mem_append.mp h with h | h
  · obtain ⟨d, -, rfl⟩ := AllowList.mem_exceptions.mp h
    exact Or.inl ⟨d, _, rfl⟩
  · obtain ⟨x, hx, hr⟩ := List.mem_flatMap.mp h
    obtain ⟨l, -, rfl⟩ := List.mem_map.mp hx
    exact Or.inr (fromLine_of_mem_read hr)

end Compilation

def Ungrouped (rules : List Rule) : Prop := ∀ r ∈ rules, ∀ hs o, r.body ≠ .network (.hostGroup hs) o

theorem ungrouped_read (l : FilterList) : Ungrouped l.read.rules :=
  fun _ hr => (fromLine_of_mem_read hr).body_ne_hostGroup

theorem ungrouped_allRules (s : Settings) (lists : List FilterList) :
    Ungrouped (Compilation.allRules s (lists.map FilterList.read)) := by
  intro r hr hs o
  rcases Compilation.mem_allRules hr with ⟨d, n, rfl⟩ | h
  · exact fun hb => by cases hb
  · exact h.body_ne_hostGroup hs o

end Blocklist
