/-
  BridgeCall/Proofs/Marker/PackageName.lean
  =========================================
  **One package name per run.**  The registry keeps the first name it is given.
  All package directives are applied, in the order of the files, before the first
  file is rewritten, so the name of a run is the one that was set before it or else
  the argument of the first directive.  A directive with another argument is
  reported, and nothing that happens later changes the name.

  So in every schedule every file is rewritten with this one name
  (`Generate.one_package_name`): all exported symbols have it, and where there is
  none every export is a problem.  The symbol takes the place of the comment as far
  as its stretch goes; with a carriage return in the comment that is not all of it
  (`Scan.export_leaves_tail`).
-/
import BridgeCall.Proofs.Marker.Exports
import BridgeCall.Proofs.Marker.Schedule
import BridgeCall.Proofs.Marker.Twin

namespace BridgeCall

/-! ### The registry -/

namespace Registry

/-- What can be asked of the registry. -/
inductive Request where
  | set (name : Bytes)
  | get
  deriving DecidableEq, Repr

/-- The answer to a request, and the registry after it. -/
def act (r : Registry) : Request → Except RegistryError (Option Bytes) × Registry
  | .set name =>
    match r.set name with
    | .ok r' => (.ok none, r')
    | .error e => (.error e, r)
  | .get => (r.get.map some, r)

/-- The registry after some requests. -/
def after (r : Registry) (qs : List Request) : Registry := qs.foldl (fun r q => (r.act q).2) r

theorem after_append (r : Registry) (qs qs' : List Request) :
    r.after (qs ++ qs') = (r.after qs).after qs' := List.foldl_append

theorem act_name {r : Registry} {name : Bytes} (h : r.name = some name) (q : Request) :
    (r.act q).2.name = some name := by
  cases q with
  | get => exact h
  | set new =>
    by_cases hnew : name = new
    · simp [act, set, h, hnew]
    · simp [act, set, h, hnew]

theorem after_name {r : Registry} {name : Bytes} (h : r.name = some name) (qs : List Request) :
    (r.after qs).name = some name := by
  induction qs generalizing r with
  | nil => exact h
  | cons q qs ih => exact ih (act_name h q)

theorem act_set_name (r : Registry) (name : Bytes) :
    (r.act (.set name)).2.name = some (r.name.getD name) := by
  cases h : r.name with
  | none => simp [act, set, h]
  | some old => exact act_name h _

theorem after_eq_of_failed_set {r : Registry} {name : Bytes} {e : RegistryError}
    (h : (r.act (.set name)).1 = .error e) : (r.act (.set name)).2 = r := by
  simp only [act] at h ⊢
  split at h
  · cases h
  · rfl

/-- The name is missing only as long as it was not set. -/
theorem unset_of_failed_get {r : Registry} {qs : List Request} {e : RegistryError}
    (h : ((r.after qs).act .get).1 = .error e) :
    e = .missing ∧ r.name = none ∧ ∀ name, .set name ∉ qs := by
  have hnone : (r.after qs).name = none := by
    cases hname : (r.after qs).name with
    | none => rfl
    | some name => simp [act, get, hname, Except.map] at h
  refine ⟨?_, ?_, fun name hmem => ?_⟩
  · simp only [act, get, hnone, Except.map] at h
    cases h
    rfl
  · cases hname : r.name with
    | none => rfl
    | some name => simp [after_name hname qs] at hnone
  · obtain ⟨before, rest, rfl⟩ := List.append_of_mem hmem
    have hset := act_set_name (r.after before) name
    have := after_name hset rest
    rw [after_append] at hnone
    simp only [after, List.foldl_cons] at hnone this
    rw [hnone] at this
    cases this

end Registry

namespace Scan

/-! ### Applying the directives -/

/-- The problem of a package directive in a run with a name: none when it says this name. -/
def conflict? (name : Option Bytes) (d : Directive) : Option Diagnostic :=
  match name with
  | none => none
  | some name =>
    if name = d.arg then none
    else some { span := d.span, kind := .directive, message := (RegistryError.taken name d.arg).message }

/-- Applies the directives of all files in order. -/
def configureAll : List Scan → Registry → List (Scan × List Diagnostic) × Registry
  | [], r => ([], r)
  | s :: scans, r =>
    let (ds, r) := s.configure r
    let (more, r) := configureAll scans r
    ((s, ds) :: more, r)

/-- The name after some directives: the one from before, or else that of the first directive. -/
def nameAfter (name : Option Bytes) (ds : List Directive) : Option Bytes :=
  name.or (ds.head?.map Directive.arg)

theorem nameAfter_append (name : Option Bytes) (ds ds' : List Directive) :
    nameAfter name (ds ++ ds') = nameAfter (nameAfter name ds) ds' := by
  cases name <;> cases ds <;> rfl

/-- One directive: without a name it names the run, and otherwise it is compared with the name. -/
def applyDirective (state : List Diagnostic × Registry) (d : Directive) :
    List Diagnostic × Registry :=
  (state.1 ++ (conflict? (nameAfter state.2.name [d]) d).toList, ⟨nameAfter state.2.name [d]⟩)

theorem configure_eq_foldl (s : Scan) (r : Registry) :
    s.configure r = s.packages.foldl applyDirective ([], r) := by
  unfold configure
  congr
  funext state d
  obtain ⟨problems, ⟨name⟩⟩ := state
  cases name with
  | none => simp [applyDirective, Registry.set, nameAfter, conflict?]
  | some name =>
    by_cases hname : name = d.arg
    · simp [applyDirective, Registry.set, nameAfter, conflict?, hname]
    · simp [applyDirective, Registry.set, nameAfter, conflict?, hname]

theorem foldl_applyDirective (ds : List Directive) (problems : List Diagnostic) (r : Registry) :
    ds.foldl applyDirective (problems, r) =
      (problems ++ ds.filterMap (conflict? (nameAfter r.name ds)), ⟨nameAfter r.name ds⟩) := by
  induction ds generalizing problems r with
  | nil => simp [nameAfter]
  | cons d ds ih =>
    have hname : nameAfter (nameAfter r.name [d]) ds = nameAfter r.name (d :: ds) :=
      (nameAfter_append r.name [d] ds).symm
    have hfirst : conflict? (nameAfter r.name [d]) d = conflict? (nameAfter r.name (d :: ds)) d := by
      cases r.name <;> rfl
    rw [List.foldl_cons, applyDirective, ih, hname, hfirst]
    cases h : conflict? (nameAfter r.name (d :: ds)) d <;> simp [h]

theorem configure_eq (s : Scan) (r : Registry) :
    s.configure r =
      (s.packages.filterMap (conflict? (nameAfter r.name s.packages)),
        ⟨nameAfter r.name s.packages⟩) := by
  rw [configure_eq_foldl, foldl_applyDirective, List.nil_append]

/-- All files are compared with the same name: a file before the first directive has none. -/
theorem configureAll_eq (scans : List Scan) (r : Registry) :
    configureAll scans r =
      (scans.map fun s =>
        (s, s.packages.filterMap (conflict? (nameAfter r.name (scans.flatMap Scan.packages)))),
        ⟨nameAfter r.name (scans.flatMap Scan.packages)⟩) := by
  induction scans generalizing r with
  | nil => simp [configureAll, nameAfter]
  | cons s scans ih =>
    have hname : nameAfter r.name ((s :: scans).flatMap Scan.packages)
        = nameAfter (nameAfter r.name s.packages) (scans.flatMap Scan.packages) := by
      rw [List.flatMap_cons, nameAfter_append]
    have hsame : s.packages.filterMap (conflict? (nameAfter r.name s.packages))
        = s.packages.filterMap (conflict? (nameAfter r.name ((s :: scans).flatMap Scan.packages))) := by
      rw [hname]
      cases hds : s.packages with
      | nil => rfl
      | cons d ds =>
        congr 2
        cases r.name <;> rfl
    rw [configureAll, configure_eq, hsame]
    simp only [ih, List.map_cons, hname]

/-- A registry that has taken some directives takes them again with the same result. -/
theorem configureAll_again {scans : List Scan} {r r' : Registry} {jobs : List (Scan × List Diagnostic)}
    (h : configureAll scans r = (jobs, r')) : configureAll scans r' = (jobs, r') := by
  rw [configureAll_eq] at h ⊢
  obtain ⟨rfl, rfl⟩ := Prod.mk.inj h
  have hname : nameAfter (nameAfter r.name (scans.flatMap Scan.packages)) (scans.flatMap Scan.packages)
      = nameAfter r.name (scans.flatMap Scan.packages) := by
    cases scans.flatMap Scan.packages <;> cases r.name <;> rfl
  rw [hname]

/-- A new registry takes directives without conflicts with the same result, or it has no name in the
    end because there are no directives. -/
theorem configureAll_fresh {scans : List Scan} {r r' : Registry}
    {jobs : List (Scan × List Diagnostic)} (h : configureAll scans r = (jobs, r'))
    (hquiet : ∀ j ∈ jobs, j.2 = []) :
    ∃ r₂, configureAll scans {} = (jobs, r₂) ∧ (r₂ = r' ∨ r₂ = {}) := by
  rw [configureAll_eq] at h ⊢
  obtain ⟨rfl, rfl⟩ := Prod.mk.inj h
  cases hds : scans.flatMap Scan.packages with
  | nil =>
    refine ⟨{}, ?_, .inr rfl⟩
    congr 1
    refine List.map_congr_left fun s hs => ?_
    have hnone : s.packages = [] := List.flatMap_eq_nil_iff.mp hds s hs
    rw [hnone]
    rfl
  | cons d ds =>
    -- Nothing conflicts with the first directive, so that the name is the one it says.
    have hfirst : nameAfter r.name (d :: ds) = some d.arg := by
      obtain ⟨s, hs, hd⟩ := List.mem_flatMap.mp (hds ▸ List.mem_cons_self : d ∈ scans.flatMap Scan.packages)
      have hnil : s.packages.filterMap (conflict? (nameAfter r.name (scans.flatMap Scan.packages)))
          = [] := hquiet _ (List.mem_map.mpr ⟨s, hs, rfl⟩)
      have hagree := List.filterMap_eq_nil_iff.mp hnil d hd
      rw [hds] at hagree
      cases hname : r.name with
      | none => rfl
      | some name =>
        rw [hname] at hagree
        have harg : name = d.arg := by simpa [nameAfter, conflict?] using hagree
        rw [harg]
        rfl
    have hfresh : nameAfter (Registry.name {}) (d :: ds) = some d.arg := rfl
    rw [hfresh, hfirst]
    exact ⟨_, rfl, .inl rfl⟩

/-! ### Rewriting with a name -/

/-- The line that an exported function gets, with what it takes the place of. -/
def exportLine (name : Bytes) (d : Directive) : Edit :=
  ⟨d.start, d.stop, "//export Java_"
    ++ Symbol.mangle (if name.isEmpty then d.arg else name ++ "." ++ d.arg)
    ++ "_" ++ Symbol.mangle d.fn⟩

/-- The problem of an export when there is no name. -/
def unnamed (d : Directive) : Diagnostic :=
  { span := d.span, kind := .directive, message := RegistryError.missing.message }

/-- With a name, the text that becomes the twin has the exported symbols with this name. -/
theorem rewrite_named {s : Scan} {settings : Settings} {name text : Bytes}
    (h : (s.rewrite settings ⟨some name⟩).text = some text) :
    s.finish settings (s.edited settings (s.exports.map (exportLine name)))
      (!(s.plans settings).isEmpty) = .ok text := by
  have hedits : (s.exports.map (exportEdit ⟨some name⟩)).filterMap Except.toOption
      = s.exports.map (exportLine name) := by
    rw [List.filterMap_map, ← List.filterMap_eq_map]
    rfl
  rw [rewrite_eq] at h
  dsimp only at h
  rw [hedits] at h
  split at h
  · cases h
  · split at h
    · rename_i hfinish
      cases h
      exact hfinish
    · cases h

/-- Without a name every export is a problem, and a file with one has no twin. -/
theorem rewrite_unnamed {s : Scan} (settings : Settings) (hne : s.exports ≠ []) :
    (s.rewrite settings ⟨none⟩).text = none
      ∧ (s.rewrite settings ⟨none⟩).problems = s.nameless settings ++ s.exports.map unnamed := by
  have hproblems : (s.exports.map (exportEdit ⟨none⟩)).filterMap failure?
      = s.exports.map unnamed := by
    rw [List.filterMap_map, ← List.filterMap_eq_map]
    rfl
  have hsome : (!(s.nameless settings ++ s.exports.map unnamed).isEmpty) = true := by
    simp [hne]
  rw [rewrite_eq]
  dsimp only
  rw [hproblems, if_pos hsome]
  exact ⟨rfl, rfl⟩

/-- A file without exports has nothing to do with the name. -/
theorem rewrite_of_no_exports {s : Scan} (settings : Settings) (h : s.exports = []) (r r' : Registry) :
    s.rewrite settings r = s.rewrite settings r' := by
  rw [rewrite_eq, rewrite_eq, h]
  rfl

/-- A file whose export has a carriage return in front of the name of its class. -/
def returned : Bytes := "package p\n\n//jnicall:export\r Widget\nfunc draw() {}\n"

/-- The stretch of a comment is as long as its text without carriage returns, so that such an export
    leaves its last byte behind the symbol. -/
theorem export_leaves_tail :
    ∃ s text, run {} "a.go" returned = .ok s
      ∧ (s.rewrite {} ⟨some "me.author"⟩).text = some text
      ∧ ("//export Java_me_author_Widget_drawt" : Bytes) ∈ Bytes.splitOn 0x0a text
      ∧ Symbol.ofNative "me.author" "Widget" "draw" = "Java_me_author_Widget_draw" := by
  have hrun : ((run {} "a.go" returned).toOption.any fun s =>
      (s.rewrite {} ⟨some "me.author"⟩).text.any fun text =>
        decide (("//export Java_me_author_Widget_drawt" : Bytes) ∈ Bytes.splitOn 0x0a text)) = true := by
    decide +kernel
  cases hs : run {} "a.go" returned with
  | error i =>
    rw [hs] at hrun
    cases hrun
  | ok s =>
    rw [hs] at hrun
    cases htext : (s.rewrite {} ⟨some "me.author"⟩).text with
    | none => simp [Except.toOption, htext] at hrun
    | some text =>
      have hmem := of_decide_eq_true (by simpa [Except.toOption, htext] using hrun)
      exact ⟨s, text, rfl, htext, hmem, by decide +kernel⟩

end Scan

/-! ### One name for all schedules -/

namespace Generate

variable {settings : Settings} {mode : Mode} {r : Registry} {f : Files}

/-- What is known of a file so far is what rewriting it with one registry gives. -/
def Faithful (settings : Settings) (r : Registry) (k : Job × Stage) : Prop :=
  let w := k.1.1.rewrite settings r
  match k.2 with
  | .waiting => True
  | .rewritten w' => w' = w
  | .compared w' data _ => w' = w ∧ w.text = some data
  | .done (.ok out) => out.problems = k.1.2 ++ w.problems ∧ ∀ data ∈ out.data, w.text = some data
  | .done (.error _) => True

theorem advance_faithful {j : Job} {stage stage' : Stage} {f' : Files}
    (h : Faithful settings r (j, stage))
    (hstep : advance settings mode r f j stage = some (stage', f')) :
    Faithful settings r (j, stage') := by
  cases advances hstep with
  | rewrite => rfl
  | @stop w _ =>
    obtain rfl : w = j.1.rewrite settings r := h
    exact ⟨rfl, fun _ hdata => by cases hdata⟩
  | @compare w _ _ htext _ _ =>
    obtain rfl : w = j.1.rewrite settings r := h
    exact ⟨rfl, htext⟩
  | fail _ _ _ => trivial
  | @deliver w data _ _ _ _ =>
    have hknown : w = j.1.rewrite settings r ∧ (j.1.rewrite settings r).text = some data := h
    obtain ⟨rfl, htext⟩ := hknown
    refine ⟨rfl, fun _ hdata => ?_⟩
    cases hdata
    exact htext
  | abandon _ => trivial

/-- The registry is read by every file, and no step writes it. -/
theorem leads_faithful {jobs : List Job} {w : World}
    (h : Leads settings mode (.start r f jobs) w) :
    w.registry = r ∧ ∀ k ∈ w.workers, Faithful settings r k := by
  induction h with
  | refl =>
    refine ⟨rfl, fun k hk => ?_⟩
    obtain ⟨j, -, rfl⟩ := List.mem_map.mp hk
    trivial
  | tail _ hstep ih =>
    obtain ⟨hadvance⟩ := hstep
    obtain ⟨rfl, hall⟩ := ih
    refine ⟨rfl, fun k hk => ?_⟩
    rw [List.mem_append, List.mem_cons] at hk
    rcases hk with hk | rfl | hk
    · exact hall k (by simp [hk])
    · exact advance_faithful (hall _ (by simp)) hadvance
    · exact hall k (by simp [hk])

/-- **One package name per run.** The name is the one from before, or else the argument of the first
    directive. Configuring reports the directives that say something else, one by one. In every world
    of every schedule a file is rewritten with this name: each of its exports becomes the symbol with
    the name, and without a name each is a problem and there is no twin. In between, and after any
    other requests, a name that is set stays, a set that fails changes nothing, and a get fails only
    when the name was never set. An export that has no carriage return gives its place up to the end of
    its line, so that nothing is left behind the symbol. -/
theorem one_package_name (settings : Settings) (mode : Mode) (r : Registry) (scans : List Scan)
    (f : Files) :
    let name := r.name.or ((scans.flatMap Scan.packages).head?.map Directive.arg)
    let (jobs, r') := Scan.configureAll scans r
    r' = ⟨name⟩
    ∧ jobs = scans.map (fun s => (s, s.packages.filterMap (Scan.conflict? name)))
    ∧ (∀ w, Leads settings mode (.start r' f jobs) w →
        ∀ k ∈ w.workers, Faithful settings ⟨name⟩ k)
    ∧ (∀ s ∈ scans, ∀ p, name = some p → ∀ text, (s.rewrite settings ⟨name⟩).text = some text →
        s.finish settings (s.edited settings (s.exports.map (Scan.exportLine p)))
          (!(s.plans settings).isEmpty) = .ok text)
    ∧ (name = none → ∀ s ∈ scans, s.exports ≠ [] →
        (s.rewrite settings ⟨name⟩).text = none
          ∧ (s.rewrite settings ⟨name⟩).problems
            = s.nameless settings ++ s.exports.map Scan.unnamed)
    ∧ (∀ s ∈ scans, Scan.run settings s.name s.text = .ok s → ∀ d ∈ s.exports,
        0x0d ∉ s.text.lineFrom d.start →
          Bytes.slice d.start d.stop s.text = s.text.lineFrom d.start)
    ∧ (∀ qs : List Registry.Request,
        (∀ p qs', (r.after qs).name = some p → (r.after (qs ++ qs')).name = some p)
        ∧ (∀ p e, ((r.after qs).act (.set p)).1 = .error e →
            ((r.after qs).act (.set p)).2 = r.after qs)
        ∧ ∀ e, ((r.after qs).act .get).1 = .error e →
            e = .missing ∧ r.name = none ∧ ∀ p, .set p ∉ qs) := by
  intro name
  have hname : Scan.nameAfter r.name (scans.flatMap Scan.packages) = name := rfl
  rw [Scan.configureAll_eq, hname]
  refine ⟨rfl, rfl, ?_, ?_, ?_, fun s _ hrun d hd => Scan.export_covers_line hrun hd, ?_⟩
  · intro w hleads
    exact (leads_faithful hleads).2
  · intro s _ p hp text htext
    rw [hp] at htext
    exact Scan.rewrite_named htext
  · intro hnone s _ hne
    rw [hnone]
    exact Scan.rewrite_unnamed settings hne
  · intro qs
    refine ⟨fun p qs' hp => ?_, fun p e => Registry.after_eq_of_failed_set,
      fun e => Registry.unset_of_failed_get⟩
    rw [Registry.after_append]
    exact Registry.after_name hp qs'

end Generate
end BridgeCall
