/-
  BridgeCall/Proofs/Files/Tree.lean
  =================================
  **Writing a file moves nothing else.**  Where a path leads depends only on which
  places are directories, and writing a file makes and removes no directory.  So a
  write changes what stands at one place, every path still leads where it led, and
  a path to a file ends in the name of the file.

  In a tree the names found in a directory are reached by joining them to the path
  of the directory, although joining simplifies the path
  (`Files.locate_join`).
-/
import BridgeCall.Files.Tree
import BridgeCall.Proofs.Files.Path

namespace BridgeCall.Files

variable {f g : Files}

/-! ### Trees -/

/-- No place stands twice, every name is proper, and above everything there is a directory. -/
structure IsTree (f : Files) : Prop where
  nodup : (f.entries.map Prod.fst).Nodup
  proper : ∀ x ∈ f.entries, x.1 ≠ [] ∧ ∀ name ∈ x.1, Path.IsProper name
  parent : ∀ x ∈ f.entries, f.at? x.1.dropLast = some .directory

instance (f : Files) : Decidable f.IsTree :=
  decidable_of_iff ((f.entries.map Prod.fst).Nodup
      ∧ (∀ x ∈ f.entries, x.1 ≠ [] ∧ ∀ name ∈ x.1, Path.IsProper name)
      ∧ ∀ x ∈ f.entries, f.at? x.1.dropLast = some .directory)
    ⟨fun ⟨a, b, c⟩ => ⟨a, b, c⟩, fun h => ⟨h.nodup, h.proper, h.parent⟩⟩

theorem lookup_eq_some_iff {α β : Type} [BEq α] [LawfulBEq α] {l : List (α × β)}
    (h : (l.map Prod.fst).Nodup) {a : α} {b : β} : l.lookup a = some b ↔ (a, b) ∈ l := by
  induction l with
  | nil => simp
  | cons x l ih =>
    obtain ⟨a', b'⟩ := x
    rw [List.map_cons, List.nodup_cons] at h
    rw [List.lookup_cons]
    split
    · rename_i heq
      obtain rfl := eq_of_beq heq
      constructor
      · rintro ⟨⟩
        exact List.mem_cons_self
      · intro hmem
        rcases List.mem_cons.mp hmem with heq | hmem
        · cases heq
          rfl
        · exact absurd (List.mem_map_of_mem hmem) h.1
    · rename_i hne
      rw [ih h.2, List.mem_cons]
      refine ⟨.inr, ?_⟩
      rintro (heq | hmem)
      · cases heq
        simp at hne
      · exact hmem

theorem IsTree.at?_eq_some_iff (h : f.IsTree) {place : List Bytes} {e : Entry} (hne : place ≠ []) :
    f.at? place = some e ↔ (place, e) ∈ f.entries := by
  have hisEmpty : place.isEmpty = false := by simpa using hne
  rw [at?, if_neg (by simp [hisEmpty]), lookup_eq_some_iff h.nodup]

theorem IsTree.parent_directory (h : f.IsTree) {place : List Bytes} {e : Entry}
    (hat : f.at? place = some e) : f.at? place.dropLast = some .directory := by
  by_cases hne : place = []
  · rw [hne]
    rfl
  · exact h.parent _ ((h.at?_eq_some_iff hne).mp hat)

theorem IsTree.proper_of_at? (h : f.IsTree) {place : List Bytes} {e : Entry}
    (hat : f.at? place = some e) : ∀ name ∈ place, Path.IsProper name := by
  by_cases hne : place = []
  · simp [hne]
  · exact (h.proper _ ((h.at?_eq_some_iff hne).mp hat)).2

/-! ### Putting a file -/

theorem at?_put (f : Files) {q : List Bytes} (hq : q ≠ []) (e : Entry) (place : List Bytes) :
    (f.put q e).at? place = if place = q then some e else f.at? place := by
  by_cases hne : place = []
  · rw [hne, if_neg (Ne.symm hq)]
    rfl
  have hat : ∀ g : Files, g.at? place = g.entries.lookup place :=
    fun g => if_neg (by simpa using hne)
  rw [hat, hat, put, List.lookup_append]
  by_cases heq : place = q
  · have hnone : (f.entries.filter fun x => x.1 ≠ q).lookup place = none := by
      rw [List.lookup_eq_none_iff]
      intro x hx
      have hx := (List.mem_filter.mp hx).2
      rw [heq]
      simpa using Ne.symm (of_decide_eq_true hx)
    rw [hnone, if_pos heq, heq]
    simp
  · have hsame : (f.entries.filter fun x => x.1 ≠ q).lookup place = f.entries.lookup place := by
      induction f.entries with
      | nil => rfl
      | cons x xs ih =>
        by_cases hx : x.1 = q
        · have hne : (place == x.1) = false := by simpa [hx] using heq
          rw [List.filter_cons_of_neg (by simp [hx]), ih, List.lookup_cons, hne]
        · rw [List.filter_cons_of_pos (by simpa using hx), List.lookup_cons, List.lookup_cons, ih]
    have hne : (place == q) = false := by simpa using heq
    rw [hsame, if_neg heq]
    simp [List.lookup_cons, hne]

theorem ne_nil_of_free {q : List Bytes} (h : f.at? q ≠ some .directory) : q ≠ [] := by
  rintro rfl
  exact h rfl

/-- A file stands where no directory is, in a directory and under a name that can stand there. -/
structure Fits (f : Files) (q : List Bytes) : Prop where
  free : f.at? q ≠ some .directory
  parent : f.at? q.dropLast = some .directory
  proper : ∀ name ∈ q, Path.IsProper name

theorem Fits.ne_nil {q : List Bytes} (h : f.Fits q) : q ≠ [] := ne_nil_of_free h.free

theorem IsTree.put (h : f.IsTree) {q : List Bytes} (hq : f.Fits q) (content : Bytes) :
    (f.put q (.file content)).IsTree := by
  have hkeeps : ∀ place, f.at? place = some .directory →
      (f.put q (.file content)).at? place = some .directory := by
    intro place hplace
    rw [at?_put f hq.ne_nil, if_neg, hplace]
    rintro rfl
    exact hq.free hplace
  constructor
  · have hsub : ((f.entries.filter fun x => x.1 ≠ q).map Prod.fst).Nodup :=
      h.nodup.sublist (List.Sublist.map _ List.filter_sublist)
    rw [Files.put, List.map_append, List.nodup_append]
    refine ⟨hsub, by simp, ?_⟩
    rintro a ha b hb rfl
    obtain rfl : a = q := by simpa using hb
    obtain ⟨x, hx, rfl⟩ := List.mem_map.mp ha
    simpa using (List.mem_filter.mp hx).2
  · intro x hx
    rcases List.mem_append.mp hx with hx | hx
    · exact h.proper x (List.mem_of_mem_filter hx)
    · obtain rfl : x = (q, .file content) := by simpa using hx
      exact ⟨hq.ne_nil, hq.proper⟩
  · intro x hx
    rcases List.mem_append.mp hx with hx | hx
    · exact hkeeps _ (h.parent x (List.mem_of_mem_filter hx))
    · obtain rfl : x = (q, .file content) := by simpa using hx
      exact hkeeps _ hq.parent

/-! ### Where paths lead -/

/-- The same current directory, and directories at the same places. -/
structure SameDirs (f g : Files) : Prop where
  cwd : g.cwd = f.cwd
  directory : ∀ place, g.at? place = some .directory ↔ f.at? place = some .directory

theorem SameDirs.refl (f : Files) : f.SameDirs f := ⟨rfl, fun _ => Iff.rfl⟩

theorem SameDirs.symm (h : f.SameDirs g) : g.SameDirs f :=
  ⟨h.cwd.symm, fun place => (h.directory place).symm⟩

theorem SameDirs.trans {k : Files} (h : f.SameDirs g) (h' : g.SameDirs k) : f.SameDirs k :=
  ⟨h'.cwd.trans h.cwd, fun place => (h'.directory place).trans (h.directory place)⟩

theorem sameDirs_put {q : List Bytes} (hq : f.at? q ≠ some .directory) (content : Bytes) :
    f.SameDirs (f.put q (.file content)) := by
  refine ⟨rfl, fun place => ?_⟩
  rw [at?_put f (ne_nil_of_free hq)]
  split
  · rename_i heq
    simpa [heq] using hq
  · rfl

theorem follow_cons_of_directory {place : List Bytes} (h : f.at? place = some .directory) (e : Bytes)
    (es : List Bytes) :
    f.follow place (e :: es) =
      if e.isEmpty || e = ("." : Bytes) then f.follow place es
      else if e = (".." : Bytes) then f.follow place.dropLast es
      else f.follow (place ++ [e]) es := by
  rw [follow, h]

theorem directory_of_follow {place q es : List Bytes} {e : Bytes}
    (h : f.follow place (e :: es) = .ok q) : f.at? place = some .directory := by
  rw [follow] at h
  split at h
  · cases h
  · cases h
  · assumption

theorem SameDirs.follow (h : f.SameDirs g) {place q es : List Bytes}
    (hf : f.follow place es = .ok q) : g.follow place es = .ok q := by
  induction es generalizing place with
  | nil => exact hf
  | cons e es ih =>
    have hplace := directory_of_follow hf
    rw [follow_cons_of_directory hplace] at hf
    rw [follow_cons_of_directory ((h.directory place).mpr hplace)]
    split at hf
    · rw [if_pos ‹_›]
      exact ih hf
    · rw [if_neg ‹_›]
      split at hf
      · rw [if_pos ‹_›]
        exact ih hf
      · rw [if_neg ‹_›]
        exact ih hf

theorem SameDirs.locate (h : f.SameDirs g) {path : Bytes} {q : List Bytes} :
    g.locate path = .ok q ↔ f.locate path = .ok q := by
  have hforth : ∀ {f g : Files}, f.SameDirs g → f.locate path = .ok q → g.locate path = .ok q := by
    intro f g h hf
    rw [Files.locate] at hf ⊢
    split at hf
    · cases hf
    · rw [if_neg ‹_›]
      split at hf
      · rw [if_pos ‹_›]
        exact h.follow hf
      · rw [if_neg ‹_›, h.cwd]
        exact h.follow hf
  exact ⟨hforth h.symm, hforth h⟩

/-! ### Reading and writing -/

theorem find_of_locate {path : Bytes} {q : List Bytes} (h : f.locate path = .ok q) :
    f.find path = match f.at? q with
      | some e => .ok e
      | none => .error .missing := by
  rw [find, h]
  rfl

theorem find_eq_ok_iff {path : Bytes} {e : Entry} :
    f.find path = .ok e ↔ ∃ q, f.locate path = .ok q ∧ f.at? q = some e := by
  cases hlocate : f.locate path with
  | error p => simp [find, hlocate, Bind.bind, Except.bind]
  | ok q =>
    rw [find_of_locate hlocate]
    cases hat : f.at? q <;> simp [hat]

theorem read_eq_ok_iff {path content : Bytes} :
    f.read path = .ok content ↔ ∃ q, f.locate path = .ok q ∧ f.at? q = some (.file content) := by
  rw [← find_eq_ok_iff, read]
  split <;> simp_all

theorem write_eq_ok_iff {path content : Bytes} :
    f.write path content = .ok g ↔ ∃ q, f.locate path = .ok q ∧ f.at? q ≠ some .directory ∧
      f.at? q.dropLast = some .directory ∧ g = f.put q (.file content) := by
  rw [write]
  cases f.locate path with
  | error p => simp
  | ok q =>
    simp only [Except.ok.injEq, ↓existsAndEq, true_and]
    split
    · simp_all
    · rename_i hparent hfree
      simp only [Except.ok.injEq, hparent, true_and]
      constructor
      · rintro rfl
        exact ⟨fun h => hfree h, rfl⟩
      · exact fun h => h.2.symm
    · simp_all
    · simp_all

/-- What stands at the end of a path of which no element has a slash: the last step was a name. -/
theorem IsTree.follow_name (h : f.IsTree) {place q es : List Bytes} (hne : es ≠ [])
    (hes : ∀ e ∈ es, 0x2f ∉ e) (hf : f.follow place es = .ok q)
    (hq : f.at? q ≠ some .directory) :
    ∃ d, q = d ++ [es.getLast hne] ∧ Path.IsProper (es.getLast hne)
      ∧ f.at? d = some .directory := by
  induction es generalizing place with
  | nil => exact absurd rfl hne
  | cons e es ih =>
    have hplace := directory_of_follow hf
    have hparent := h.parent_directory hplace
    rw [follow_cons_of_directory hplace] at hf
    by_cases hlast : es = []
    · subst hlast
      simp only [follow] at hf
      split at hf
      · cases hf
        exact absurd hplace hq
      · rename_i hsome
        simp only [Bool.or_eq_true, List.isEmpty_iff, decide_eq_true_eq, not_or] at hsome
        split at hf
        · cases hf
          exact absurd hparent hq
        · rename_i hdots
          cases hf
          exact ⟨place, rfl, ⟨hsome.1, hsome.2, hdots, hes e List.mem_cons_self⟩, hplace⟩
    · rw [List.getLast_cons hlast]
      have hrest : ∀ x ∈ es, 0x2f ∉ x := fun x hx => hes x (List.mem_cons_of_mem _ hx)
      split at hf
      · exact ih hlast hrest hf
      · split at hf
        · exact ih hlast hrest hf
        · exact ih hlast hrest hf

/-- A path that does not lead to a directory ends in the name of what it leads to. -/
theorem IsTree.locate_last (h : f.IsTree) {path : Bytes} {q : List Bytes}
    (hf : f.locate path = .ok q) (hq : f.at? q ≠ some .directory) :
    ∃ d, q = d ++ [Path.last path] ∧ Path.IsProper (Path.last path)
      ∧ f.at? d = some .directory := by
  have hes : ∀ e ∈ Path.elements path, 0x2f ∉ e := fun _ => Path.slash_not_mem_of_mem_elements
  rw [locate] at hf
  split at hf
  · cases hf
  · split at hf
    · exact h.follow_name (Path.elements_ne_nil path) hes hf hq
    · exact h.follow_name (Path.elements_ne_nil path) hes hf hq

theorem IsTree.fits (h : f.IsTree) {path : Bytes} {q : List Bytes}
    (hf : f.locate path = .ok q) (hq : f.at? q ≠ some .directory) : f.Fits q := by
  obtain ⟨d, rfl, hname, hd⟩ := h.locate_last hf hq
  refine ⟨hq, by simpa using hd, ?_⟩
  intro name hmem
  rcases List.mem_append.mp hmem with hmem | hmem
  · exact h.proper_of_at? hd name hmem
  · obtain rfl : name = Path.last path := by simpa using hmem
    exact hname

/-- A write changes what stands at one place, and nothing about directories. -/
theorem IsTree.write (h : f.IsTree) {path content : Bytes} (hw : f.write path content = .ok g) :
    ∃ q, f.locate path = .ok q ∧ f.Fits q ∧ g = f.put q (.file content) := by
  obtain ⟨q, hlocate, hfree, -, rfl⟩ := write_eq_ok_iff.mp hw
  exact ⟨q, hlocate, h.fits hlocate hfree, rfl⟩

/-! ### Joined paths -/

theorem follow_append {place q xs ys : List Bytes} :
    f.follow place (xs ++ ys) = .ok q ↔
      ∃ p, f.follow place xs = .ok p ∧ f.follow p ys = .ok q := by
  induction xs generalizing place with
  | nil => simp [follow]
  | cons x xs ih =>
    by_cases hplace : f.at? place = some .directory
    · rw [List.cons_append, follow_cons_of_directory hplace, follow_cons_of_directory hplace]
      split
      · exact ih
      · split
        · exact ih
        · exact ih
    · constructor
      · exact fun h => absurd (directory_of_follow h) hplace
      · rintro ⟨p, h, -⟩
        exact absurd (directory_of_follow h) hplace

theorem follow_name_iff {place q : List Bytes} {name : Bytes} (h : Path.IsProper name) :
    f.follow place [name] = .ok q ↔ f.at? place = some .directory ∧ q = place ++ [name] := by
  obtain ⟨hempty, hdot, hdots, -⟩ := h
  have hsome : ¬(name.isEmpty || decide (name = ("." : Bytes))) = true := by simp [hempty, hdot]
  constructor
  · intro hf
    have hplace := directory_of_follow hf
    rw [follow_cons_of_directory hplace, if_neg hsome, if_neg hdots] at hf
    cases hf
    exact ⟨hplace, rfl⟩
  · rintro ⟨hplace, rfl⟩
    rw [follow_cons_of_directory hplace, if_neg hsome, if_neg hdots]
    rfl

/-- Simplifying leads to the same place: the elements kept lead to where all elements so far have led,
    so that two dots, which go up from there, take the last of them back. -/
theorem follow_simplify {absolute : Bool} {start p q : List Bytes} {kept es : List Bytes}
    (hstart : absolute = true → start = [])
    (hnamed : ∀ e ∈ kept, e ≠ [] ∧ e ≠ ("." : Bytes) ∧ 0x2f ∉ e) (hslash : ∀ e ∈ es, 0x2f ∉ e)
    (hkept : f.follow start kept.reverse = .ok p) (hes : f.follow p es = .ok q) :
    f.follow start (Path.simplify absolute kept es) = .ok q := by
  induction es generalizing kept p with
  | nil =>
    cases hes
    rwa [Path.simplify]
  | cons e es ih =>
    have hp := directory_of_follow hes
    have hrest : ∀ x ∈ es, 0x2f ∉ x := fun x hx => hslash x (List.mem_cons_of_mem _ hx)
    rw [follow_cons_of_directory hp] at hes
    rw [Path.simplify_cons]
    split at hes
    · rw [if_pos ‹_›]
      exact ih hnamed hrest hkept hes
    rename_i hsome
    rw [if_neg hsome]
    have hname : e ≠ [] ∧ e ≠ ("." : Bytes) := by simpa using hsome
    have hpush : ∀ x ∈ e :: kept, x ≠ [] ∧ x ≠ ("." : Bytes) ∧ 0x2f ∉ x := by
      intro x hx
      rcases List.mem_cons.mp hx with rfl | hx
      · exact ⟨hname.1, hname.2, hslash x List.mem_cons_self⟩
      · exact hnamed x hx
    split at hes
    · rename_i hdots
      have hlonger : f.follow start (e :: kept).reverse = .ok p.dropLast := by
        rw [List.reverse_cons, follow_append]
        refine ⟨p, hkept, ?_⟩
        rw [follow_cons_of_directory hp, if_neg hsome, if_pos hdots]
        rfl
      rw [if_pos hdots]
      cases kept with
      | nil =>
        cases hkept
        cases absolute with
        | true =>
          have hup : start.dropLast = start := by
            rw [hstart rfl]
            rfl
          rw [hup] at hes
          exact ih hnamed hrest rfl hes
        | false => exact ih hpush hrest hlonger hes
      | cons k ks =>
        dsimp only
        split
        · exact ih hpush hrest hlonger hes
        · rename_i hk
          obtain ⟨hk1, hk2, hk3⟩ := hnamed k List.mem_cons_self
          rw [List.reverse_cons, follow_append] at hkept
          obtain ⟨p', hks, hlast⟩ := hkept
          obtain ⟨-, rfl⟩ := (follow_name_iff ⟨hk1, hk2, hk, hk3⟩).mp hlast
          rw [List.dropLast_concat] at hes
          exact ih (fun x hx => hnamed x (List.mem_cons_of_mem _ hx)) hrest hks hes
    · rename_i hdots
      have hlonger : f.follow start (e :: kept).reverse = .ok (p ++ [e]) := by
        rw [List.reverse_cons, follow_append]
        exact ⟨p, hkept, (follow_name_iff
          ⟨hname.1, hname.2, hdots, hslash e List.mem_cons_self⟩).mpr ⟨hp, rfl⟩⟩
      rw [if_neg hdots]
      exact ih hpush hrest hlonger hes

/-- The path of a name in a directory leads to it. -/
theorem locate_join {path name : Bytes} {place : List Bytes} (hf : f.locate path = .ok place)
    (hplace : f.at? place = some .directory) (hname : Path.IsProper name) :
    f.locate (Path.join path name) = .ok (place ++ [name]) := by
  have hpath : path ≠ [] := by
    rintro rfl
    cases hf
  obtain ⟨habs, hne, helements⟩ := Path.elements_join_name hpath hname
  have hes : ∀ e ∈ Path.elements path, 0x2f ∉ e := fun _ => Path.slash_not_mem_of_mem_elements
  have hlast := (follow_name_iff (f := f) hname).mpr ⟨hplace, rfl⟩
  rw [locate, if_neg (by simpa using hpath)] at hf
  rw [locate, if_neg (by simpa using hne), habs, helements]
  split at hf
  · rename_i habsolute
    rw [if_pos habsolute, if_pos habsolute, follow_cons_of_directory rfl, if_pos (by simp),
      follow_append]
    exact ⟨place, follow_simplify (by simp) (by simp) hes rfl hf, hlast⟩
  · rename_i hrelative
    rw [if_neg hrelative, if_neg hrelative, follow_append]
    exact ⟨place, follow_simplify (fun h => absurd h hrelative) (by simp) hes rfl hf, hlast⟩

end BridgeCall.Files
