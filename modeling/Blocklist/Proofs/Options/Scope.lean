import Blocklist.Options
import Blocklist.Proofs.Sets
import Blocklist.Proofs.SmallLetters

/-! Scopes written out and read back. The entries of a written list are what stands between the separators; a scope
that was read is written with the entries it was read from, and reading them again gives the scope. -/

namespace Blocklist

/-- What stands between separators: something without blanks around it. -/
structure IsEntry (sep : Char → Bool) (e : Text) : Prop extends Text.IsTrimmed e where
  unseparated : ∀ c ∈ e, sep c = false

theorem Text.lower_intercalate {sep : Char} (hsep : sep.toLower = sep) (ts : List Text) :
    lower ([sep].intercalate ts) = [sep].intercalate (ts.map lower) := by
  induction ts with
  | nil => rfl
  | cons t ts ih =>
    cases ts with
    | nil => simp [List.intercalate]
    | cons u ts =>
      have hone : lower [sep] = [sep] := by rw [lower, List.map_singleton, hsep]
      rw [List.intercalate_cons_cons, lower_append, lower_append, ih, hone]
      simp only [List.map_cons, List.intercalate_cons_cons]

namespace Scope

theorem isEntry_of_mem_entries {sep : Char → Bool} {t e : Text} (h : e ∈ entries sep t) :
    IsEntry sep e ∧ e <:+: t := by
  obtain ⟨hmem, hne⟩ := List.mem_filter.mp h
  obtain ⟨w, hw, rfl⟩ := List.mem_map.mp hmem
  obtain ⟨hsep, hinfix⟩ := Text.mem_splitWhen hw
  have htrim := Text.trim_infix w
  exact ⟨⟨⟨by simpa using hne, Text.trim_trim w⟩, fun c hc => hsep c (htrim.subset hc)⟩, htrim.trans hinfix⟩

theorem entries_intercalate {sep : Char} {es : List Text} (h : ∀ e ∈ es, IsEntry (· == sep) e) :
    entries (· == sep) ([sep].intercalate es) = es := by
  by_cases hes : es = []
  · rw [hes]
    rfl
  have hsingle : ∀ e ∈ es, Text.splitOn sep e = [e] := by
    intro e he
    have hsplit := Text.splitWhen_append (t := []) (h e he).unseparated rfl
    rwa [List.append_nil] at hsplit
  have hsplit : Text.splitWhen (· == sep) ([sep].intercalate es) = es := by
    have hpieces := Text.splitOn_intercalate sep hes
    rwa [List.flatMap_congr hsingle, List.flatMap_singleton'] at hpieces
  have htrim : es.map Text.trim = es := by
    rw [List.map_congr_left fun e he => (h e he).trimmed, List.map_id']
  rw [entries, hsplit, htrim, List.filter_eq_self]
  intro e he
  simpa using (h e he).nonempty

theorem add_of_not_tilde {d : Text} (h : d.head? ≠ some '~') (s : Scope) :
    s.add d = { s with included := s.included.insert d } := by
  unfold add
  split
  · exact absurd rfl h
  · exact absurd rfl h
  · rfl

theorem add_tilde {d : Text} (h : d ≠ []) (s : Scope) :
    s.add ('~' :: d) = { s with excluded := s.excluded.insert d } := by
  unfold add
  split
  · rename_i heq
    exact absurd (List.cons.inj heq).2 h
  · rename_i heq
    rw [(List.cons.inj heq).2]
  · rename_i hne
    exact absurd rfl (hne d)

def entryTexts (s : Scope) : List Text := s.included.names ++ s.excluded.names.map ('~' :: ·)

def written (s : Scope) : Text := ['|'].intercalate s.entryTexts

structure From (P : Text → Prop) (s : Scope) : Prop where
  included : ∀ d ∈ s.included, P d ∧ d.head? ≠ some '~'
  excluded : ∀ d ∈ s.excluded, P ('~' :: d) ∧ d ≠ []

variable {P : Text → Prop}

theorem from_empty : From P {} :=
  ⟨fun d hd => absurd hd (NameSet.not_mem_empty d), fun d hd => absurd hd (NameSet.not_mem_empty d)⟩

theorem From.mono {Q : Text → Prop} {s : Scope} (h : From P s) (hPQ : ∀ e, P e → Q e) : From Q s :=
  ⟨fun d hd => (h.included d hd).imp_left (hPQ d), fun d hd => (h.excluded d hd).imp_left (hPQ _)⟩

theorem From.of_mem_entryTexts {s : Scope} (h : From P s) {e : Text} (he : e ∈ s.entryTexts) : P e := by
  rcases List.mem_append.mp he with he | he
  · exact (h.included e he).1
  · obtain ⟨d, hd, rfl⟩ := List.mem_map.mp he
    exact (h.excluded d hd).1

/-- The scope holds exactly the entries that satisfy `P`, each on the side its tilde says. A tilde with nothing behind it
is no entry. -/
structure Lists (P : Text → Prop) (s : Scope) : Prop where
  included : ∀ d, d ∈ s.included ↔ P d ∧ d.head? ≠ some '~'
  excluded : ∀ d, d ∈ s.excluded ↔ P ('~' :: d) ∧ d ≠ []

theorem lists_empty : Lists (fun _ => False) {} :=
  ⟨fun d => iff_of_false (NameSet.not_mem_empty d) (fun h => h.1),
    fun d => iff_of_false (NameSet.not_mem_empty d) (fun h => h.1)⟩

theorem Lists.congr {Q : Text → Prop} {s : Scope} (h : Lists P s) (hPQ : ∀ e, P e ↔ Q e) : Lists Q s := by
  obtain rfl : P = Q := funext fun e => propext (hPQ e)
  exact h

theorem Lists.add {s : Scope} (h : Lists P s) (e : Text) : Lists (fun x => P x ∨ x = e) (s.add e) := by
  by_cases htilde : e.head? = some '~'
  · obtain ⟨d, rfl⟩ := List.head?_eq_some_iff.mp htilde
    by_cases hd : d = []
    · subst hd
      refine ⟨fun x => (h.included x).trans ?_, fun x => (h.excluded x).trans ?_⟩
      · grind
      · grind
    · rw [add_tilde hd]
      refine ⟨fun x => (h.included x).trans ?_, fun x => NameSet.mem_insert.trans ?_⟩
      · grind
      · rw [h.excluded x]
        grind
  · rw [add_of_not_tilde htilde]
    refine ⟨fun x => NameSet.mem_insert.trans ?_, fun x => (h.excluded x).trans ?_⟩
    · rw [h.included x]
      grind
    · grind

theorem Lists.foldl_add {s : Scope} (h : Lists P s) (es : List Text) :
    Lists (fun x => P x ∨ x ∈ es) (es.foldl Scope.add s) := by
  induction es generalizing P s with
  | nil => exact h.congr fun x => by simp
  | cons e es ih => exact (ih (h.add e)).congr fun x => by rw [List.mem_cons, or_assoc]

theorem foldl_add_plain {ds : List Text} (h : ∀ d ∈ ds, d.head? ≠ some '~') (s : Scope) :
    ds.foldl add s = { s with included := ds.foldl NameSet.insert s.included } := by
  induction ds generalizing s with
  | nil => rfl
  | cons d ds ih =>
    rw [List.foldl_cons, add_of_not_tilde (h d (by simp)), ih fun x hx => h x (by simp [hx])]
    rfl

theorem foldl_add_tilde {ds : List Text} (h : ∀ d ∈ ds, d ≠ []) (s : Scope) :
    (ds.map ('~' :: ·)).foldl add s = { s with excluded := ds.foldl NameSet.insert s.excluded } := by
  induction ds generalizing s with
  | nil => rfl
  | cons d ds ih =>
    rw [List.map_cons, List.foldl_cons, add_tilde (h d (by simp)), ih fun x hx => h x (by simp [hx])]
    rfl

theorem From.foldl_entryTexts {s : Scope} (h : From P s) : s.entryTexts.foldl Scope.add {} = s := by
  rw [entryTexts, List.foldl_append, foldl_add_plain fun d hd => (h.included d hd).2,
    foldl_add_tilde fun d hd => (h.excluded d hd).2]
  simp only [NameSet.foldl_insert_names]

theorem From.entryTexts_ne_nil {s : Scope} (h : From P s) (hs : s ≠ {}) : s.entryTexts ≠ [] := by
  intro hnil
  have hfold := h.foldl_entryTexts
  rw [hnil] at hfold
  exact hs hfold.symm

theorem From.lower_written {s : Scope} (h : From P s) (hP : ∀ e, P e → e.lower = e) : s.written.lower = s.written := by
  rw [written, Text.lower_intercalate (by decide),
    List.map_congr_left fun e he => hP e (h.of_mem_entryTexts he), List.map_id']

/-- Reading what was written gives the scope. -/
theorem From.addAll_written {s : Scope} (h : From P s) (hP : ∀ e, P e → IsEntry (· == '|') e ∧ e.lower = e) :
    addAll {} (· == '|') s.written = s := by
  rw [addAll, h.lower_written fun e he => (hP e he).2, written,
    entries_intercalate fun e he => (hP e (h.of_mem_entryTexts he)).1, h.foldl_entryTexts]

end Scope

end Blocklist
