import Blocklist.Command.FileTree
import Mathlib.Data.List.Basic

/-! Writing in a tree of files. A write that succeeds changes what one place holds, and the text is found again under the
path it was written to; every other place is as it was, folders included. So a tree obeys the laws of a file system. -/

namespace Blocklist.FileTree

theorem lookup_put_self (p : List Text) (e : FileEntry) (es : List (List Text × FileEntry)) :
    (put p e es).lookup p = some e := by
  induction es with
  | nil => simp [put]
  | cons x es ih =>
    unfold put
    split_ifs with hx
    · simp
    · obtain ⟨q, f⟩ := x
      have hne : (p == q) = false := beq_false_of_ne (Ne.symm hx)
      rw [List.lookup_cons, hne]
      exact ih

theorem lookup_put_of_ne {p q : List Text} (h : q ≠ p) (e : FileEntry) (es : List (List Text × FileEntry)) :
    (put p e es).lookup q = es.lookup q := by
  have hne : (q == p) = false := beq_false_of_ne h
  induction es with
  | nil => simp [put, List.lookup_cons, hne]
  | cons x es ih =>
    obtain ⟨r, f⟩ := x
    unfold put
    split_ifs with hr
    · rw [List.lookup_cons, hne, List.lookup_cons, show r = p from hr, hne]
    · rw [List.lookup_cons, List.lookup_cons, ih]

theorem any_put (f : List Text → Bool) (p : List Text) (e : FileEntry) (es : List (List Text × FileEntry)) :
    ((put p e es).any fun x => f x.1) = ((es.any fun x => f x.1) || f p) := by
  induction es with
  | nil => simp [put]
  | cons x es ih =>
    unfold put
    split_ifs with hx
    · simp only [List.any_cons, hx]
      cases f p <;> simp
    · simp only [List.any_cons, ih, Bool.or_assoc]

theorem isFolder_iff {d : FileTree} {place : List Text} : d.isFolder place = true ↔ d.entry? place = some .folder := by
  simp [isFolder]

/-- A folder is on the way to where commands run or to an entry. -/
theorem onWay_of_isFolder {d : FileTree} {place : List Text} (h : d.isFolder place = true) :
    (place.isPrefixOf d.here || d.entries.any fun x => place.isPrefixOf x.1) = true := by
  rw [isFolder_iff] at h
  unfold entry? at h
  split at h
  · rename_i e he
    obtain ⟨as, bs, heq, -⟩ := List.lookup_eq_some_iff.mp he
    rw [Bool.or_eq_true, List.any_eq_true]
    exact Or.inr ⟨(place, e), by rw [heq]; simp, by simp⟩
  · split_ifs at h with hp
    exact hp

theorem exists_of_bind_eq_ok {x : Except ε α} {f : α → Except ε β} {b : β} (h : x >>= f = .ok b) :
    ∃ a, x = .ok a ∧ f a = .ok b := by
  cases x with
  | error e => cases h
  | ok a => exact ⟨a, rfl, h⟩

theorem readText_eq_ok_iff {d : FileTree} {path t : Text} :
    d.readText path = .ok t ↔ ∃ p, d.find path = .ok p ∧ d.entry? p = some (.text t) := by
  constructor
  · intro h
    obtain ⟨p, hp, h⟩ := exists_of_bind_eq_ok h
    refine ⟨p, hp, ?_⟩
    split at h
    · rename_i u hu
      rw [hu, Except.ok.inj h]
    all_goals cases h
  · rintro ⟨p, hp, he⟩
    simp [readText, hp, he, bind, Except.bind]

/-- A place for a text: a folder, and a name in it that no folder has. -/
structure IsTarget (d : FileTree) (path : Text) (place : List Text) (name : Text) : Prop where
  folder : d.isFolder place = true
  free : d.entry? (place ++ [name]) ≠ some .folder
  plain : name ≠ [] ∧ name ≠ ['.'] ∧ name ≠ ['.', '.']
  path : ∃ before, Text.splitOn '/' path = before ++ [name] ∧ d.walk (d.start path) before = .ok place

theorem exists_isTarget {d : FileTree} {path : Text} {p : List Text} (h : d.target path = .ok p) :
    ∃ place name, p = place ++ [name] ∧ IsTarget d path place name := by
  unfold target at h
  set parts := (Text.splitOn '/' path).reverse with hparts
  cases hdrop : parts.drop (parts.takeWhile (· = [])).length with
  | nil => simp [hdrop] at h
  | cons name before =>
    simp only [hdrop] at h
    obtain ⟨place, hwalk, h⟩ := exists_of_bind_eq_ok h
    split_ifs at h with hfolder hdots hslashes
    · have hreverse : parts = name :: before := by simpa [hslashes] using hdrop
      have hname : name ≠ [] := by
        rintro rfl
        simp [hreverse] at hslashes
      have hsplit : Text.splitOn '/' path = before.reverse ++ [name] := by
        rw [← List.reverse_reverse (Text.splitOn '/' path), ← hparts, hreverse, List.reverse_cons]
      have hfree : d.entry? (place ++ [name]) ≠ some .folder := by
        intro he
        rw [he] at h
        cases h
      have hp : p = place ++ [name] := by
        split at h <;> cases h <;> rfl
      exact ⟨place, name, hp, by simpa using hfolder, hfree, ⟨hname, not_or.mp hdots⟩, _, hsplit, hwalk⟩
    · split at h <;> cases h

section

variable {d : FileTree} {path : Text} {place : List Text} {name : Text} (h : IsTarget d path place name) (text : Text)

theorem entry?_withText_self (p : List Text) : FileTree.entry? (d.withText p text) p = some (.text text) := by
  unfold entry?
  rw [withText, lookup_put_self]

include h

/-- A place above the text is a folder already, and all other places are not touched. -/
theorem IsTarget.entry?_withText {q : List Text} (hq : q ≠ place ++ [name]) :
    FileTree.entry? (d.withText (place ++ [name]) text) q = d.entry? q := by
  have hany : (q.isPrefixOf d.here || (d.withText (place ++ [name]) text).entries.any fun x => q.isPrefixOf x.1) =
      (q.isPrefixOf d.here || d.entries.any fun x => q.isPrefixOf x.1) := by
    rw [withText, any_put q.isPrefixOf]
    cases hp : q.isPrefixOf (place ++ [name]) with
    | false => rw [Bool.or_false]
    | true =>
      have hplace : q <+: place := (List.prefix_concat_iff.mp (List.isPrefixOf_iff_prefix.mp hp)).resolve_left hq
      have honWay := onWay_of_isFolder h.folder
      rw [Bool.or_true, Bool.or_true]
      simp only [Bool.or_eq_true, List.any_eq_true, List.isPrefixOf_iff_prefix, eq_comm (a := true)] at honWay ⊢
      exact honWay.imp hplace.trans fun ⟨x, hx, hpx⟩ => ⟨x, hx, hplace.trans hpx⟩
  have hlookup : (d.withText (place ++ [name]) text).entries.lookup q = d.entries.lookup q := lookup_put_of_ne hq _ _
  have hhere : (d.withText (place ++ [name]) text).here = d.here := rfl
  unfold entry?
  rw [hlookup, hhere, hany]

theorem IsTarget.isFolder_withText (q : List Text) :
    (d.withText (place ++ [name]) text).isFolder q = d.isFolder q := by
  by_cases hq : q = place ++ [name]
  · subst hq
    have hfree := h.free
    simp only [isFolder, entry?_withText_self]
    simpa using hfree
  · rw [isFolder, isFolder, h.entry?_withText text hq]

/-- What is there stays there. -/
theorem IsTarget.isSome_withText {q : List Text} (hs : (d.entry? q).isSome = true) :
    (FileTree.entry? (d.withText (place ++ [name]) text) q).isSome = true := by
  by_cases hq : q = place ++ [name]
  · rw [hq, entry?_withText_self, Option.isSome_some]
  · rwa [h.entry?_withText text hq]

/-- A way through the tree leads where it led before. -/
theorem IsTarget.walk_withText {ps start q : List Text} (hw : d.walk start ps = .ok q) :
    (d.withText (place ++ [name]) text).walk start ps = .ok q := by
  induction ps generalizing start with
  | nil => exact hw
  | cons part ps ih =>
    unfold walk at hw ⊢
    rw [h.isFolder_withText text]
    split_ifs at hw ⊢ with hfolder hstay hup
    · exact ih hw
    · exact ih hw
    · cases he : d.entry? (start ++ [part]) with
      | none => simp [he] at hw
      | some e =>
        obtain ⟨e', he'⟩ := Option.isSome_iff_exists.mp (h.isSome_withText text (Option.isSome_of_eq_some he))
        rw [he] at hw
        rw [he']
        exact ih hw

omit h in
theorem walk_append {start before q : List Text} (hw : d.walk start before = .ok q) (ps : List Text) :
    d.walk start (before ++ ps) = d.walk q ps := by
  induction before generalizing start with
  | nil =>
    obtain rfl := Except.ok.inj hw
    rfl
  | cons part before ih =>
    rw [walk] at hw
    rw [List.cons_append, walk]
    split_ifs at hw ⊢
    · exact ih hw
    · exact ih hw
    · cases he : d.entry? (start ++ [part]) with
      | none => simp [he] at hw
      | some e =>
        rw [he] at hw
        exact ih hw

/-- The path leads to where the text was put. -/
theorem IsTarget.find_withText : (d.withText (place ++ [name]) text).find path = .ok (place ++ [name]) := by
  obtain ⟨before, hsplit, hwalk⟩ := h.path
  obtain ⟨hname, hdot, hdots⟩ := h.plain
  have hpath : path ≠ [] := by
    rintro rfl
    exact hname (by simpa [Text.splitOn, Text.splitWhen] using congrArg List.getLast? hsplit)
  have hstart : (d.withText (place ++ [name]) text).start path = d.start path := rfl
  rw [find, if_neg hpath, hsplit, hstart, walk_append (h.walk_withText text hwalk), walk, h.isFolder_withText text,
    h.folder, entry?_withText_self]
  simp [hname, hdot, hdots, walk]

end

theorem writeText_eq_ok {d d' : FileTree} {path text : Text} (h : d.writeText path text = (.ok (), d')) :
    ∃ place name, IsTarget d path place name ∧ d' = d.withText (place ++ [name]) text := by
  unfold writeText at h
  cases hp : d.target path with
  | error e => simp [hp] at h
  | ok p =>
    obtain ⟨place, name, rfl, ht⟩ := exists_isTarget hp
    rw [hp] at h
    exact ⟨place, name, ht, (Prod.mk.inj h).2.symm⟩

instance : LawfulFileState FileTree where
  read_place h := by
    obtain ⟨p, hp, he⟩ := readText_eq_ok_iff.mp h
    exact ⟨p, congrArg Except.toOption hp, he⟩
  write_error {d d' path text e} h := by
    change d.writeText path text = _ at h
    unfold writeText at h
    split at h
    · cases h
    · exact (Prod.mk.inj h).2.symm
  read_write {d d' path text} h := by
    obtain ⟨place, name, ht, rfl⟩ := writeText_eq_ok h
    exact readText_eq_ok_iff.mpr ⟨_, ht.find_withText text, entry?_withText_self text _⟩
  entry?_write {d d' path text p q} h hp hq := by
    obtain ⟨place, name, ht, rfl⟩ := writeText_eq_ok h
    have hplace : some (place ++ [name]) = some p := (congrArg Except.toOption (ht.find_withText text)).symm.trans hp
    exact ht.entry?_withText text (Option.some.inj hplace ▸ hq)

end Blocklist.FileTree
