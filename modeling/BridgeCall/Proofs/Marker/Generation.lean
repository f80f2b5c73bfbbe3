/-
  BridgeCall/Proofs/Marker/Generation.lean
  ========================================
  **Generating twice is generating once.**  A run collects and scans the sources,
  applies their directives, and takes care of the twins.  Where the twins stand at
  different places and in no source's place, every schedule gives the same outputs
  and files, a file with problems has its twin left alone, and every other twin holds
  its text afterwards (`Generate.run_atomic`).

  The twins are no sources, so that the next run has the same sources.  Its registry
  has the same name or none: without conflicts all directives say the same.  So it
  makes the same texts, or reports that there is no name, and writes nothing.

  That a twin is no source needs the build lines of its source to be cut as a whole.
  One with carriage returns inside is not, and then the next run writes a twin of the
  twin (`Generate.run_again_writes`).
-/
import BridgeCall.Proofs.Marker.BuildLines
import BridgeCall.Proofs.Marker.Collection
import BridgeCall.Proofs.Marker.PackageName

namespace BridgeCall.Generate

variable {settings : Settings} {mode : Mode} {r r' : Registry} {f f' g : Files}
  {paths : List Bytes} {scans : List Scan} {jobs : List Job} {outs : List Output}

/-! ### The phases of a run -/

/-- The registry with the package of the settings. -/
def named (settings : Settings) (r : Registry) : Except RegistryError Registry :=
  if settings.package.isEmpty then .ok r else r.set settings.package

/-- What stands between the phases of a run: the sources with the problems of their directives, and the
    registry. -/
def IsPrepared (settings : Settings) (r : Registry) (f : Files) (paths : List Bytes)
    (jobs : List Job) (r' : Registry) : Prop :=
  ∃ scans r₁, IsSources settings f paths scans ∧ named settings r = .ok r₁
    ∧ Scan.configureAll scans r₁ = (jobs, r')

theorem scanAll_eq {files : List Bytes} (r : Registry)
    (h : ∀ path ∈ files, ∃ s, scanFile f settings path = .ok s) :
    scanAll f settings r files =
      (.ok (Scan.configureAll (files.filterMap (source? settings f)) r).1,
        (Scan.configureAll (files.filterMap (source? settings f)) r).2) := by
  induction files generalizing r with
  | nil => rfl
  | cons path files ih =>
    obtain ⟨s, hs⟩ := h path List.mem_cons_self
    have hrest := fun r => ih r fun x hx => h x (List.mem_cons_of_mem _ hx)
    rw [scanAll, hs]
    by_cases htagged : s.tagged = true
    · have hsource := source?_eq_some_iff.mpr ⟨hs, htagged⟩
      simp only [htagged, Bool.not_true, Bool.false_eq_true, if_false, hrest]
      rw [List.filterMap_cons_some hsource, Scan.configureAll]
    · have hsource : source? settings f path = none := by simp [source?, hs, htagged]
      simp only [htagged, Bool.not_false, if_true, hrest]
      rw [List.filterMap_cons_none hsource]

theorem scanned_of_scanAll {files : List Bytes} (h : scanAll f settings r files = (.ok jobs, r')) :
    ∀ path ∈ files, ∃ s, scanFile f settings path = .ok s := by
  induction files generalizing r jobs with
  | nil => simp
  | cons path files ih =>
    rw [scanAll] at h
    cases hs : scanFile f settings path with
    | error e =>
      rw [hs] at h
      cases h
    | ok s =>
      rw [hs] at h
      have hrest : ∃ r jobs, scanAll f settings r files = (.ok jobs, r') := by
        dsimp only at h
        split at h
        · exact ⟨_, _, h⟩
        · split at h
          · rename_i hmore
            cases h
            exact ⟨_, _, hmore⟩
          · cases h
      obtain ⟨r₁, jobs₁, hrest⟩ := hrest
      intro x hx
      rcases List.mem_cons.mp hx with rfl | hx
      · exact ⟨s, hs⟩
      · exact ih hrest x hx

/-- What a run works on is what is found in the files. -/
theorem IsPrepared.scanned (h : IsPrepared settings r f paths jobs r') {j : Job} (hj : j ∈ jobs) :
    Scan.run settings j.1.name j.1.text = .ok j.1 := by
  obtain ⟨scans, r₁, ⟨files, -, -, rfl⟩, -, hconfigured⟩ := h
  rw [Scan.configureAll_eq] at hconfigured
  obtain ⟨rfl, -⟩ := Prod.mk.inj hconfigured
  obtain ⟨s, hs, rfl⟩ := List.mem_map.mp hj
  obtain ⟨path, -, hsource⟩ := List.mem_filterMap.mp hs
  obtain ⟨text, -, hrun⟩ := scanFile_eq_ok_iff.mp (source?_eq_some_iff.mp hsource).1
  obtain ⟨-, -, hname, htext, -⟩ := Scan.run_eq_ok hrun
  rw [hname, htext, hrun]

theorem run_of_prepared (mode : Mode) (h : IsPrepared settings r f paths jobs r') :
    run settings mode r f paths =
      ((outputs settings mode r' f jobs).1, r', (outputs settings mode r' f jobs).2) := by
  obtain ⟨scans, r₁, ⟨files, hfiles, hscanned, rfl⟩, hnamed, hconfigured⟩ := h
  have hset : (if settings.package.isEmpty then .ok r else r.set settings.package) = .ok r₁ := hnamed
  rw [run, hfiles]
  simp only [hset, scanAll_eq r₁ hscanned, hconfigured]

/-- A run that does not get to the twins fails, and changes no file. -/
theorem run_cases (settings : Settings) (mode : Mode) (r : Registry) (f : Files)
    (paths : List Bytes) :
    (∃ jobs r', IsPrepared settings r f paths jobs r')
      ∨ (∃ e, (run settings mode r f paths).1 = .error e)
        ∧ (run settings mode r f paths).2.2 = f := by
  rw [run]
  cases hfiles : collect f settings.suffix paths with
  | error e => exact .inr ⟨⟨_, rfl⟩, rfl⟩
  | ok files =>
    dsimp only
    cases hnamed : named settings r with
    | error e =>
      have hset : (if settings.package.isEmpty then .ok r else r.set settings.package) = .error e :=
        hnamed
      rw [hset]
      exact .inr ⟨⟨_, rfl⟩, rfl⟩
    | ok r₁ =>
      have hset : (if settings.package.isEmpty then .ok r else r.set settings.package) = .ok r₁ :=
        hnamed
      rw [hset]
      dsimp only
      cases hall : scanAll f settings r₁ files with
      | mk result r₂ =>
        cases result with
        | error e => exact .inr ⟨⟨_, rfl⟩, rfl⟩
        | ok jobs =>
          have hscanned := scanned_of_scanAll hall
          rw [scanAll_eq r₁ hscanned] at hall
          exact .inl ⟨_, _, _, r₁, ⟨files, hfiles, hscanned, rfl⟩, hnamed, rfl⟩

/-! ### One twin -/

/-- What taking care of a twin comes to: an error, a file with problems, or a text that is delivered. -/
theorem output_cases (settings : Settings) (mode : Mode) (r : Registry) (f : Files) (j : Job) :
    let w := j.1.rewrite settings r
    (∃ e, output settings mode r f j.1 j.2 = (.error e, f))
      ∨ j.2 ++ w.problems ≠ [] ∧ output settings mode r f j.1 j.2 = (.ok (j.report settings w), f)
      ∨ j.2 ++ w.problems = [] ∧ ∃ data stale f', w.text = some data
        ∧ emit mode f (j.target settings) data = .ok (stale, f')
        ∧ output settings mode r f j.1 j.2
          = (.ok { j.report settings w with data := some data, stale }, f') := by
  intro w
  have hsome : w.text.isSome = w.problems.isEmpty := Scan.rewrite_text_isSome j.1 settings r
  have houtput : output settings mode r f j.1 j.2
      = finish settings mode r f j (.rewritten w) := output_eq_finish settings mode r f j
  rw [houtput]
  simp only [finish]
  cases htext : w.text with
  | none =>
    refine .inr (.inl ⟨fun hnil => ?_, rfl⟩)
    simp [htext, (List.append_eq_nil_iff.mp hnil).2] at hsome
  | some data =>
    dsimp only
    by_cases hnil : j.2 ++ w.problems = []
    · rw [if_neg (by simp [hnil])]
      cases hemit : emit mode f (j.target settings) data with
      | error e => exact .inl ⟨e, rfl⟩
      | ok emitted => exact .inr (.inr ⟨hnil, data, emitted.1, emitted.2, rfl, hemit, rfl⟩)
    · rw [if_pos (by simpa using hnil)]
      exact .inr (.inl ⟨hnil, rfl⟩)

/-- Taking care of a twin changes nothing, or writes the text of a file without problems. -/
theorem output_files (settings : Settings) (mode : Mode) (r : Registry) (f : Files) (j : Job) :
    (output settings mode r f j.1 j.2).2 = f
      ∨ mode.writes = true ∧ j.2 ++ (j.1.rewrite settings r).problems = []
        ∧ ∃ data, (j.1.rewrite settings r).text = some data
          ∧ f.write (j.target settings) data = .ok (output settings mode r f j.1 j.2).2 := by
  rcases output_cases settings mode r f j with
    ⟨e, heq⟩ | ⟨-, heq⟩ | ⟨hnil, data, stale, f', htext, hemit, heq⟩
  · exact .inl (congrArg Prod.snd heq)
  · exact .inl (congrArg Prod.snd heq)
  · rw [heq]
    obtain ⟨_, -, hdeliver⟩ := emit_eq_ok hemit
    obtain ⟨-, ⟨hidle, -⟩ | ⟨hwrites, hwrite⟩⟩ := deliver_cases hdeliver
    · exact .inl hidle
    · exact .inr ⟨hwrites, hnil, data, htext, hwrite⟩

/-- A twin is outdated when it is missing or other than it should be. -/
def Outdated (f : Files) (target data : Bytes) : Prop :=
  (∃ old, f.read target = .ok old ∧ old ≠ data)
    ∨ ∃ e, f.read target = .error e ∧ e.problem = .missing

/-- The output on a file: its problems and no text, or its text, with whether the twin was outdated;
    then it is the text that stands there, where twins are written. -/
structure Reports (settings : Settings) (mode : Mode) (r : Registry) (f f' : Files) (j : Job)
    (o : Output) : Prop where
  source : o.source = j.1.name
  target : o.target = j.target settings
  problems : o.problems = j.2 ++ (j.1.rewrite settings r).problems
  faulty : o.problems ≠ [] → o.data = none ∧ o.stale = false
  clean : o.problems = [] → ∃ data, (j.1.rewrite settings r).text = some data ∧ o.data = some data
    ∧ (o.stale = true ↔ Outdated f o.target data)
    ∧ (mode.writes = true → f'.read o.target = .ok data)

theorem compare_eq_ok {target data : Bytes} {stale : Bool}
    (h : compare f target data = .ok stale) :
    (stale = true ↔ Outdated f target data)
      ∧ (stale = false → f.read target = .ok data) := by
  rw [compare] at h
  cases hread : f.read target with
  | ok old =>
    rw [hread] at h
    cases h
    simp [Outdated, hread]
  | error e =>
    rw [hread] at h
    dsimp only at h
    split at h
    · rename_i hmissing
      cases h
      simp [Outdated, hread, hmissing]
    · cases h

/-- A twin that is not stale, or is written, holds its text. -/
theorem read_of_deliver {target data : Bytes} {stale st : Bool}
    (h : deliver mode f target data stale = .ok (st, g))
    (hread : stale = false → f.read target = .ok data) (hwrites : mode.writes = true) :
    g.read target = .ok data := by
  obtain ⟨-, ⟨rfl, hidle⟩ | ⟨-, hwrite⟩⟩ := deliver_cases h
  · exact hread (hidle hwrites)
  · obtain ⟨q, hlocate, hfree, -, rfl⟩ := Files.write_eq_ok_iff.mp hwrite
    refine Files.read_eq_ok_iff.mpr ⟨q, (Files.sameDirs_put hfree data).locate.mpr hlocate, ?_⟩
    rw [Files.at?_put f (Files.ne_nil_of_free hfree), if_pos rfl]

theorem output_reports {j : Job} {o : Output}
    (h : (output settings mode r f j.1 j.2).1 = .ok o) :
    Reports settings mode r f (output settings mode r f j.1 j.2).2 j o := by
  rcases output_cases settings mode r f j with
    ⟨e, heq⟩ | ⟨hproblems, heq⟩ | ⟨hnil, data, st, f', htext, hemit, heq⟩
  · rw [heq] at h
    cases h
  · rw [heq] at h
    cases h
    exact ⟨rfl, rfl, rfl, fun _ => ⟨rfl, rfl⟩, fun hnil => absurd hnil hproblems⟩
  · rw [heq] at h ⊢
    cases h
    obtain ⟨stale, hcompare, hdeliver⟩ := emit_eq_ok hemit
    obtain ⟨hstale, hread⟩ := compare_eq_ok hcompare
    obtain ⟨rfl, -⟩ := deliver_cases hdeliver
    exact ⟨rfl, rfl, rfl, fun hne => absurd hnil hne,
      fun _ => ⟨data, htext, rfl, hstale, read_of_deliver hdeliver hread⟩⟩

/-! ### All twins -/

theorem outputs_at?_twin (hdistinct : Distinct settings f jobs) {j : Job} (hj : j ∈ jobs)
    {p : List Bytes} (hp : f.locate (j.target settings) = .ok p) :
    (outputs settings mode r f jobs).2.at? p = (output settings mode r f j.1 j.2).2.at? p := by
  obtain ⟨w, hleads, hfinished, -, hfiles⟩ := outputs_reachable settings mode r f jobs
  rw [← hfiles]
  exact (settled_of_leads hdistinct hleads).at?_twin hfinished hj hp

theorem outputs_sameDirs (settings : Settings) (mode : Mode) (r : Registry) (f : Files)
    (jobs : List Job) : f.SameDirs (outputs settings mode r f jobs).2 := by
  obtain ⟨w, hleads, -, -, hfiles⟩ := outputs_reachable settings mode r f jobs
  rw [← hfiles]
  exact leads_sameDirs hleads

theorem mapM_id_eq_some {α : Type} {l : List (Option α)} {xs : List α} (h : l.mapM id = some xs) :
    l = xs.map some := by
  induction l generalizing xs with
  | nil =>
    cases h
    rfl
  | cons x l ih =>
    rw [List.mapM_cons] at h
    cases x with
    | none => cases h
    | some x =>
      cases hl : l.mapM id with
      | none =>
        rw [hl] at h
        cases h
      | some ys =>
        rw [hl] at h
        cases h
        rw [ih hl, List.map_cons]

theorem outputs_eq_ok (hdistinct : Distinct settings f jobs)
    (h : (outputs settings mode r f jobs).1 = .ok outs) :
    List.Forall₂ (fun j o => (output settings mode r f j.1 j.2).1 = .ok o) jobs outs := by
  obtain ⟨w, hleads, hfinished, houtputs, -⟩ := outputs_reachable settings mode r f jobs
  rw [(settled_of_leads hdistinct hleads).outputs?_eq hfinished, h] at houtputs
  have hall : List.Forall₂ (· = ·)
      (jobs.map fun j => (output settings mode r f j.1 j.2).1.toOption) (outs.map some) := by
    rw [mapM_id_eq_some houtputs]
    exact List.forall₂_same.mpr fun _ _ => rfl
  rw [List.forall₂_map_left_iff, List.forall₂_map_right_iff] at hall
  refine hall.imp fun j o hjo => ?_
  cases hout : (output settings mode r f j.1 j.2).1 with
  | error e =>
    rw [hout] at hjo
    cases hjo
  | ok o' =>
    rw [hout] at hjo
    cases hjo
    rfl

theorem outputs_report (hdistinct : Distinct settings f jobs)
    (h : (outputs settings mode r f jobs).1 = .ok outs) :
    List.Forall₂ (Reports settings mode r f (outputs settings mode r f jobs).2) jobs outs := by
  have hall := outputs_eq_ok hdistinct h
  rw [List.forall₂_iff_zip] at hall ⊢
  refine ⟨hall.1, fun {j o} hmem => ?_⟩
  have hj : j ∈ jobs := (List.of_mem_zip hmem).1
  obtain ⟨hsource, htarget, hproblems, hfaulty, hclean⟩ := output_reports (hall.2 hmem)
  refine ⟨hsource, htarget, hproblems, hfaulty, fun hnil => ?_⟩
  obtain ⟨data, htext, hdata, hstale, hthere⟩ := hclean hnil
  refine ⟨data, htext, hdata, hstale, fun hwrites => ?_⟩
  obtain ⟨p, hp, hat⟩ := Files.read_eq_ok_iff.mp (hthere hwrites)
  have hdirs : f.SameDirs (output settings mode r f j.1 j.2).2 := by
    rcases output_files settings mode r f j with heq | ⟨-, -, data', -, hwrite⟩
    · rw [heq]
      exact .refl f
    · obtain ⟨q, -, hfree, -, heq⟩ := Files.write_eq_ok_iff.mp hwrite
      rw [heq]
      exact Files.sameDirs_put hfree data'
  rw [htarget] at hp ⊢
  have hlocate := hdirs.locate.mp hp
  refine Files.read_eq_ok_iff.mpr ⟨p, (outputs_sameDirs settings mode r f jobs).locate.mpr hlocate, ?_⟩
  rw [outputs_at?_twin hdistinct hj hlocate, hat]

/-- Where the twin of a file with problems belongs nothing is changed. -/
theorem outputs_at?_of_problems (hdistinct : Distinct settings f jobs) {j : Job} (hj : j ∈ jobs)
    (hproblems : j.2 ++ (j.1.rewrite settings r).problems ≠ []) {p : List Bytes}
    (hp : f.locate (j.target settings) = .ok p) :
    (outputs settings mode r f jobs).2.at? p = f.at? p := by
  rw [outputs_at?_twin hdistinct hj hp]
  rcases output_files settings mode r f j with heq | ⟨-, hnil, -⟩
  · rw [heq]
  · exact absurd hnil hproblems

theorem leads_files_of_idle {w : World} (h : mode.writes = false)
    (hleads : Leads settings mode (.start r f jobs) w) : w.files = f := by
  induction hleads with
  | refl => rfl
  | tail _ hstep ih =>
    obtain ⟨hadvance⟩ := hstep
    rcases advance_files hadvance with heq | ⟨hwrites, -⟩
    · exact heq.trans ih
    · simp [h] at hwrites

/-! ### The next run -/

/-- Twins that are no sources and stand in no source's place leave the sources as they are. -/
theorem outputs_isSources (htree : f.IsTree) (hscans : IsSources settings f paths scans)
    (hapart : ∀ j ∈ jobs, ∀ s ∈ scans, ∀ p, f.locate s.name = .ok p →
      f.locate (j.target settings) ≠ .ok p)
    (htwins : ∀ j ∈ jobs, ∀ data, (j.1.rewrite settings r).text = some data →
      ∀ name, ∃ s, Scan.run settings name data = .ok s ∧ s.tagged = false) :
    IsSources settings (outputs settings mode r f jobs).2 paths scans := by
  induction jobs generalizing f with
  | nil => exact hscans
  | cons j jobs ih =>
    have hmem : ∀ i ∈ jobs, i ∈ j :: jobs := fun i => List.mem_cons_of_mem j
    rw [outputs]
    dsimp only
    rcases output_files settings mode r f j with heq | ⟨-, -, data, htext, hwrite⟩
    · rw [heq]
      exact ih htree hscans (fun i hi => hapart i (hmem i hi)) fun i hi => htwins i (hmem i hi)
    · obtain ⟨q, hlocate, hfits, heq⟩ := htree.write hwrite
      have hdirs := Files.sameDirs_put hfits.free data
      rw [heq]
      refine ih (htree.put hfits data) ?_ ?_ fun i hi => htwins i (hmem i hi)
      · refine hscans.put htree hfits (htwins j List.mem_cons_self data htext) ?_
        intro s hs hname
        exact hapart j List.mem_cons_self s hs q hname hlocate
      · intro i hi s hs p hname htarget
        exact hapart i (hmem i hi) s hs p (hdirs.locate.mp hname) (hdirs.locate.mp htarget)

/-- The output on a file that has problems, or whose twin is as it should be. -/
def Job.current (settings : Settings) (r : Registry) (j : Job) : Output :=
  { j.report settings (j.1.rewrite settings r) with
    data := if (j.2 ++ (j.1.rewrite settings r).problems).isEmpty
      then (j.1.rewrite settings r).text else none }

theorem output_of_current {j : Job}
    (h : j.2 ++ (j.1.rewrite settings r).problems = [] →
      ∀ data, (j.1.rewrite settings r).text = some data → f.read (j.target settings) = .ok data) :
    output settings mode r f j.1 j.2 = (.ok (j.current settings r), f) := by
  rw [output_eq_finish, Job.current]
  simp only [finish]
  cases htext : (j.1.rewrite settings r).text with
  | none => simp [Job.report]
  | some data =>
    by_cases hnil : j.2 ++ (j.1.rewrite settings r).problems = []
    · have hread := h hnil data htext
      simp [hnil, emit_eq, compare, hread, Except.bind, deliver, Job.answer, Job.report]
    · have hsome : (j.2 ++ (j.1.rewrite settings r).problems).isEmpty = false := by simpa using hnil
      simp [hsome, Job.report]

theorem outputs_of_current
    (h : ∀ j ∈ jobs, j.2 ++ (j.1.rewrite settings r).problems = [] →
      ∀ data, (j.1.rewrite settings r).text = some data → f.read (j.target settings) = .ok data) :
    outputs settings mode r f jobs = (.ok (jobs.map (Job.current settings r)), f) := by
  induction jobs with
  | nil => rfl
  | cons j jobs ih =>
    rw [outputs, output_of_current (h j List.mem_cons_self)]
    dsimp only
    rw [ih fun i hi => h i (List.mem_cons_of_mem _ hi)]
    rfl

theorem name_of_named {r₁ : Registry} (hpackage : settings.package.isEmpty ≠ true)
    (h : named settings r = .ok r₁) : r₁ = ⟨some settings.package⟩ := by
  rw [named, if_neg hpackage, Registry.set] at h
  split at h
  · cases h
    rfl
  · rename_i old hold
    split at h
    · rename_i heq
      cases h
      rw [← heq, ← hold]
    · cases h

/-- The registry of the next run, whether it is the same or a new one: it takes the directives of a
    run without conflicts again, and then has the same name or none. -/
theorem next_name {r₁ r₂ : Registry} (hnamed : named settings r = .ok r₁)
    (hconfigured : Scan.configureAll scans r₁ = (jobs, r')) (hquiet : ∀ j ∈ jobs, j.2 = [])
    (hr₂ : r₂ = r' ∨ r₂ = {}) :
    ∃ r₂₁ r₂', named settings r₂ = .ok r₂₁ ∧ Scan.configureAll scans r₂₁ = (jobs, r₂')
      ∧ (r₂' = r' ∨ r₂' = {}) ∧ (r₂ = r' → r₂' = r') := by
  by_cases hpackage : settings.package.isEmpty = true
  · refine ⟨r₂, ?_⟩
    have hset : named settings r₂ = .ok r₂ := if_pos hpackage
    rcases hr₂ with rfl | rfl
    · exact ⟨r₂, hset, Scan.configureAll_again hconfigured, .inl rfl, fun _ => rfl⟩
    · obtain ⟨r₂', hagain, hname⟩ := Scan.configureAll_fresh hconfigured hquiet
      refine ⟨r₂', hset, hagain, hname, ?_⟩
      rintro rfl
      rcases hname with hname | hname
      · exact hname
      · exact hname
  · have hr₁ := name_of_named hpackage hnamed
    have hr' : r' = ⟨some settings.package⟩ := by
      rw [hr₁, Scan.configureAll_eq] at hconfigured
      exact (Prod.mk.inj hconfigured).2.symm
    have hset : named settings r₂ = .ok r₁ := by
      rw [named, if_neg hpackage, hr₁]
      rcases hr₂ with rfl | rfl
      · simp [Registry.set, hr']
      · rfl
    exact ⟨r₁, r', hset, hconfigured, .inl rfl, fun _ => rfl⟩

/-! ### Runs -/

/-- The twins stand at different places, and none stands where a tagged file is. -/
structure Separate (settings : Settings) (f : Files) (jobs : List Job) : Prop where
  distinct : Distinct settings f jobs
  apart : ∀ i ∈ jobs, ∀ j ∈ jobs, ∀ p, f.locate i.1.name = .ok p →
    f.locate (j.target settings) ≠ .ok p

theorem Reports.eq_current {j : Job} {o : Output} (h : Reports settings mode r f f' j o)
    (hclean : o.problems = []) : { o with stale := false } = j.current settings r := by
  obtain ⟨source, target, data, stale, problems⟩ := o
  obtain ⟨data', htext, hdata, -, -⟩ := h.clean hclean
  have hsource : source = j.1.name := h.source
  have htarget : target = j.target settings := h.target
  have hproblems : problems = j.2 ++ (j.1.rewrite settings r).problems := h.problems
  have hnil : problems = [] := hclean
  have hdata : data = some data' := hdata
  rw [Job.current, ← hproblems, hnil, htext, hdata, hsource, htarget]
  simp only [Job.report, ← hproblems, hnil]
  rfl

theorem map_current (h : List.Forall₂ (Reports settings mode r f f') jobs outs)
    (hclean : ∀ o ∈ outs, o.problems = []) :
    jobs.map (Job.current settings r) = outs.map fun o => { o with stale := false } := by
  induction h with
  | nil => rfl
  | cons hreport _ ih =>
    rw [List.map_cons, List.map_cons, hreport.eq_current (hclean _ List.mem_cons_self),
      ih fun o ho => hclean o (List.mem_cons_of_mem _ ho)]

theorem map_source (h : List.Forall₂ (Reports settings mode r f f') jobs outs) (r₂ : Registry) :
    (jobs.map (Job.current settings r₂)).map Output.source = outs.map Output.source := by
  induction h with
  | nil => rfl
  | cons hreport _ ih =>
    rw [List.map_cons, List.map_cons, List.map_cons, ih, hreport.source]
    rfl

theorem exists_report {j : Job} (h : List.Forall₂ (Reports settings mode r f f') jobs outs)
    (hj : j ∈ jobs) : ∃ o ∈ outs, Reports settings mode r f f' j o := by
  induction h with
  | nil => cases hj
  | cons hfirst _ ih =>
    rcases List.mem_cons.mp hj with rfl | hj
    · exact ⟨_, List.mem_cons_self, hfirst⟩
    · obtain ⟨o, ho, hreport⟩ := ih hj
      exact ⟨o, List.mem_cons_of_mem _ ho, hreport⟩

/-- After a run without problems the next one, with the registry it leaves or a new one, finds every
    twin as it should be. -/
theorem run_again {mode₂ : Mode} {r₂ : Registry} (htree : f.IsTree)
    (htag : Pattern.isTag settings.buildTag = true)
    (hprepared : IsPrepared settings r f paths jobs r') (hseparate : Separate settings f jobs)
    (hwrites : mode.writes = true) (hrun : (outputs settings mode r' f jobs).1 = .ok outs)
    (hclean : ∀ o ∈ outs, o.problems = [])
    (hunbroken : ∀ j ∈ jobs, Scan.UnbrokenBuildLines j.1.text)
    (hkeeps : ∀ j ∈ jobs, Scan.KeepsBuildLines settings r' j.1) (hr₂ : r₂ = r' ∨ r₂ = {}) :
    ∃ r₂', run settings mode₂ r₂ (outputs settings mode r' f jobs).2 paths
        = (.ok (jobs.map (Job.current settings r₂')), r₂', (outputs settings mode r' f jobs).2)
      ∧ (r₂ = r' → r₂' = r') := by
  have hscanned := fun j => hprepared.scanned (j := j)
  obtain ⟨scans, r₁, hscans, hnamed, hconfigured⟩ := hprepared
  have hreports := outputs_report hseparate.distinct hrun
  have hquiet : ∀ j ∈ jobs, j.2 = [] := by
    intro j hj
    obtain ⟨o, ho, hreport⟩ := exists_report hreports hj
    have hnil := hclean o ho
    rw [hreport.problems] at hnil
    exact (List.append_eq_nil_iff.mp hnil).1
  have hstands : ∀ j ∈ jobs, ∃ data, (j.1.rewrite settings r').text = some data
      ∧ Scan.Headed settings data
      ∧ (outputs settings mode r' f jobs).2.read (j.target settings) = .ok data := by
    intro j hj
    obtain ⟨o, ho, hreport⟩ := exists_report hreports hj
    obtain ⟨data, htext, -, -, hthere⟩ := hreport.clean (hclean o ho)
    have hheaded := Scan.headed_twin (hscanned j hj) htag (hunbroken j hj) (hkeeps j hj) htext
    exact ⟨data, htext, hheaded, hreport.target ▸ hthere hwrites⟩
  obtain ⟨r₂₁, r₂', hset, hconfigured', hname, hsame⟩ := next_name hnamed hconfigured hquiet hr₂
  have hscans' : IsSources settings (outputs settings mode r' f jobs).2 paths scans := by
    refine outputs_isSources htree hscans ?_ ?_
    · intro j hj s hs p hp
      rw [Scan.configureAll_eq] at hconfigured
      have hmem : (s, _) ∈ jobs :=
        (Prod.mk.inj hconfigured).1 ▸ List.mem_map.mpr ⟨s, hs, rfl⟩
      exact hseparate.apart _ hmem j hj p hp
    · intro j hj data htext
      obtain ⟨data', htext', hheaded', -⟩ := hstands j hj
      obtain rfl : data = data' := by simpa [htext] using htext'
      exact Scan.untagged_of_headed htag hheaded'
  have hprepared' : IsPrepared settings r₂ (outputs settings mode r' f jobs).2 paths jobs r₂' :=
    ⟨scans, r₂₁, hscans', hset, hconfigured'⟩
  refine ⟨r₂', ?_, hsame⟩
  rw [run_of_prepared mode₂ hprepared', outputs_of_current]
  intro j hj _ data htext
  obtain ⟨data', htext', -, hread⟩ := hstands j hj
  have hunchanged : j.1.rewrite settings r₂' = j.1.rewrite settings r' := by
    rcases hname with rfl | rfl
    · rfl
    · by_cases hexports : j.1.exports = []
      · exact Scan.rewrite_of_no_exports settings hexports _ _
      · rw [(Scan.rewrite_unnamed settings hexports).1] at htext
        cases htext
  rw [hunchanged, htext'] at htext
  cases htext
  exact hread

/-- **Runs are atomic for every file, independent of the order, and idempotent.** For sources whose
    twins are separate: no schedule gets stuck, and when one is finished its outputs and files are
    those of the run; without writing, nothing is changed; a file with problems has its twin left
    alone and no text; every other output says whether the twin was outdated, and its text is what
    stands there after a run that writes. After such a run without problems, the next one finds
    nothing stale and writes nothing, as long as no build line of a source has a carriage return
    inside, and laying a twin out keeps its build lines. -/
theorem run_atomic (htree : f.IsTree) (htag : Pattern.isTag settings.buildTag = true)
    (hprepared : IsPrepared settings r f paths jobs r') (hseparate : Separate settings f jobs) :
    (∀ mode w, Leads settings mode (.start r' f jobs) w →
      (∃ w', Leads settings mode w w' ∧ w'.Finished)
      ∧ (w.Finished → w.outputs? = (run settings mode r f paths).1.toOption
          ∧ ∀ p, w.files.at? p = (run settings mode r f paths).2.2.at? p)
      ∧ (mode.writes = false → w.files = f))
    ∧ (∀ mode : Mode, mode.writes = false → (run settings mode r f paths).2.2 = f)
    ∧ (∀ mode outs, (run settings mode r f paths).1 = .ok outs →
        List.Forall₂ (Reports settings mode r' f (run settings mode r f paths).2.2) jobs outs)
    ∧ (∀ mode, ∀ j ∈ jobs, j.2 ++ (j.1.rewrite settings r').problems ≠ [] →
        ∀ p, f.locate (j.target settings) = .ok p →
          (run settings mode r f paths).2.2.at? p = f.at? p)
    ∧ (∀ (mode : Mode) outs f', mode.writes = true →
        run settings mode r f paths = (.ok outs, r', f') →
        (∀ o ∈ outs, o.problems = []) →
        (∀ j ∈ jobs, Scan.UnbrokenBuildLines j.1.text) →
        (∀ j ∈ jobs, Scan.KeepsBuildLines settings r' j.1) →
        ∀ mode₂ r₂, r₂ = r' ∨ r₂ = {} →
          ∃ outs₂ r₂', run settings mode₂ r₂ f' paths = (.ok outs₂, r₂', f')
            ∧ outs₂.map Output.source = outs.map Output.source
            ∧ (∀ o ∈ outs₂, o.stale = false)
            ∧ (r₂ = r' → outs₂ = outs.map fun o => { o with stale := false })) := by
  refine ⟨?_, ?_, ?_, ?_, ?_⟩
  · intro mode w hleads
    refine ⟨exists_finished w, fun hfinished => ?_, fun hidle => leads_files_of_idle hidle hleads⟩
    obtain ⟨w', hleads', hfinished', houtputs, hfiles⟩ := outputs_reachable settings mode r' f jobs
    rw [run_of_prepared mode hprepared, ← houtputs, ← hfiles]
    exact finished_unique hseparate.distinct hleads hfinished hleads' hfinished'
  · intro mode hidle
    obtain ⟨w, hleads, -, -, hfiles⟩ := outputs_reachable settings mode r' f jobs
    rw [run_of_prepared mode hprepared, ← hfiles]
    exact leads_files_of_idle hidle hleads
  · intro mode outs hrun
    rw [run_of_prepared mode hprepared] at hrun ⊢
    exact outputs_report hseparate.distinct hrun
  · intro mode j hj hproblems p hp
    rw [run_of_prepared mode hprepared]
    exact outputs_at?_of_problems hseparate.distinct hj hproblems hp
  · intro mode outs f' hwrites hrun hclean hunbroken hkeeps mode₂ r₂ hr₂
    rw [run_of_prepared mode hprepared] at hrun
    obtain ⟨houts, hrest⟩ := Prod.mk.inj hrun
    obtain ⟨-, rfl⟩ := Prod.mk.inj hrest
    obtain ⟨r₂', hagain, hsame⟩ :=
      run_again htree htag hprepared hseparate hwrites houts hclean hunbroken hkeeps hr₂
    have hreports := outputs_report hseparate.distinct houts
    refine ⟨_, r₂', hagain, map_source hreports r₂', ?_, fun heq => ?_⟩
    · intro o ho
      obtain ⟨j, -, rfl⟩ := List.mem_map.mp ho
      rfl
    · rw [hsame heq]
      exact map_current hreports hclean

/-! ### A run on two files -/

deriving instance DecidableEq for Scan
deriving instance DecidableEq for Output

theorem isSources_of_scans {files : List Bytes} (hfiles : collect f settings.suffix paths = .ok files)
    (h : List.Forall₂ (fun path s => scanFile f settings path = .ok s ∧ s.tagged = true) files scans) :
    IsSources settings f paths scans := by
  refine ⟨files, hfiles, ?_, ?_⟩
  · clear hfiles
    induction h with
    | nil => simp
    | cons hfirst _ ih => exact List.forall_mem_cons.mpr ⟨⟨_, hfirst.1⟩, ih⟩
  · clear hfiles
    induction h with
    | nil => rfl
    | cons hfirst _ ih => rw [List.filterMap_cons_some (source?_eq_some_iff.mpr hfirst), ih]

/-- A tree with a tagged file and, in a directory, a tagged test file whose lines end in carriage
    returns. -/
def pair : Files where
  entries :=
    [(["a.go"], .file "//go:build jnicall\n\npackage p\n"),
      (["sub"], .directory),
      (["sub", "b_test.go"], .file "//go:build jnicall\r\n\r\npackage p\r\n")]

def sourceScan : Scan :=
  { name := "a.go", text := "//go:build jnicall\n\npackage p\n", tagged := true,
    constraints := [(0, 18)] }

def testScan : Scan :=
  { name := "sub/b_test.go", text := "//go:build jnicall\r\n\r\npackage p\r\n", tagged := true,
    constraints := [(0, 18)] }

/-- The twin of such a file. -/
def plainTwin (name : Bytes) : Bytes :=
  "// Code generated by jnicall from " ++ name ++ ". DO NOT EDIT.\n\n//go:build !jnicall\n\npackage p\n"

def pairAfter : Files :=
  (pair.put ["a_gen.go"] (.file (plainTwin "a.go"))).put ["sub", "b_gen_test.go"]
    (.file (plainTwin "b_test.go"))

theorem pair_isSources : IsSources {} pair ["a.go", "sub"] [sourceScan, testScan] := by
  have hcollect : collect pair "_gen.go" ["a.go", "sub"] = .ok ["a.go", "sub/b_test.go"] := by
    cbv
  have hscans : scanFile pair {} "a.go" = .ok sourceScan ∧ scanFile pair {} "sub/b_test.go" = .ok testScan := by
    decide +kernel
  exact isSources_of_scans hcollect (.cons ⟨hscans.1, rfl⟩ (.cons ⟨hscans.2, rfl⟩ .nil))

theorem pair_rewrite (r : Registry) :
    sourceScan.rewrite {} r = { text := some (plainTwin "a.go") }
      ∧ testScan.rewrite {} r = { text := some (plainTwin "b_test.go") } := by
  constructor
  · refine Scan.rewrite_of_finish rfl rfl rfl ?_ r
    rw [Scan.edited_of_sorted rfl (by decide)]
    decide +kernel
  · refine Scan.rewrite_of_finish rfl rfl rfl ?_ r
    rw [Scan.edited_of_sorted rfl (by decide)]
    decide +kernel

theorem pair_isPrepared :
    IsPrepared {} {} pair ["a.go", "sub"] [(sourceScan, []), (testScan, [])] {} :=
  ⟨[sourceScan, testScan], {}, pair_isSources, rfl, rfl⟩

theorem pair_separate : Separate {} pair [(sourceScan, []), (testScan, [])] := by
  refine ⟨?_, ?_⟩
  · unfold Distinct
    decide
  · decide

/-- The second run on the tree finds the twins as they should be. -/
theorem run_atomic_pair :
    pair.IsTree ∧ IsPrepared {} {} pair ["a.go", "sub"] [(sourceScan, []), (testScan, [])] {}
      ∧ Separate {} pair [(sourceScan, []), (testScan, [])]
      ∧ ∃ outs r₂, run {} {} {} pairAfter ["a.go", "sub"] = (.ok outs, r₂, pairAfter)
        ∧ outs.map Output.source = ["a.go", "sub/b_test.go"] ∧ ∀ o ∈ outs, o.stale = false := by
  have htree : pair.IsTree := by decide
  refine ⟨htree, pair_isPrepared, pair_separate, ?_⟩
  have hrun : run {} {} {} pair ["a.go", "sub"]
      = (.ok [⟨"a.go", "a_gen.go", some (plainTwin "a.go"), true, []⟩,
          ⟨"sub/b_test.go", "sub/b_gen_test.go", some (plainTwin "b_test.go"), true, []⟩], {},
        pairAfter) := by
    rw [run_of_prepared {} pair_isPrepared]
    simp only [outputs, output, pair_rewrite]
    rfl
  have hkeeps : ∀ j ∈ [(sourceScan, []), (testScan, ([] : List Diagnostic))],
      Scan.KeepsBuildLines {} {} j.1 := by
    simp only [List.forall_mem_cons, Scan.KeepsBuildLines, pair_rewrite]
    decide +kernel
  obtain ⟨outs, r₂, hagain, hsource, hstale, -⟩ :=
    (run_atomic htree (by decide) pair_isPrepared pair_separate).2.2.2.2 {} _ _ rfl hrun
      (by simp) (by decide +kernel) hkeeps {} {} (.inl rfl)
  exact ⟨outs, r₂, hagain, hsource, hstale⟩

/-! ### A build line that is not cut -/

/-- A file as it is printed, before its build lines are brought together, with where they start. -/
def printed (f : Host.File) (depth : Nat) : Option (Bytes × List Nat × List Nat) :=
  ((Host.Print.file (Host.Print.printers depth) f).run
    { lines := f.lines, comments := f.comments }).map fun (_, sheet) =>
      let sheet := Host.Print.Sheet.finish sheet
      (sheet.output.toList, sheet.buildLines, sheet.plusLines)

theorem print_eq {f : Host.File} {depth : Nat} {out : Bytes} {build plus : List Nat}
    (h : printed f depth = some (out, build, plus)) :
    f.print depth
      = Host.Columns.trim (Host.Columns.align (Host.BuildLines.arrange out build plus)) := by
  unfold printed at h
  unfold Host.File.print
  split
  · rename_i hrun
    rw [hrun] at h
    cases h
  · rename_i sheet hrun
    rw [hrun] at h
    cases h
    rfl

/-- The text of a file without imports, from what is printed. -/
theorem finish_of_printed {s : Scan} {body out : Bytes} {build plus : List Nat}
    (himported : s.imported = none)
    (h : let text := s.header settings ++ Bytes.trimLeft (· = 0x0a) body
      (Host.File.parse text).toOption.map (fun f =>
        (f.hasImportGroup, printed f (Host.depthFor text)))
          = some (false, some (out, build, plus))) :
    s.finish settings body false
      = .ok (Host.Columns.trim (Host.Columns.align (Host.BuildLines.arrange out build plus))) := by
  unfold Scan.finish
  dsimp only at h ⊢
  split
  · rename_i hparse
    rw [hparse] at h
    cases h
  · rename_i f hparse
    rw [hparse] at h
    obtain ⟨hgroup, hprint⟩ := Prod.mk.inj (Option.some.inj h)
    have hsame : s.dropMarkerImport f = f := by rw [Scan.dropMarkerImport, himported]
    simp [hsame, Host.File.render, hgroup, print_eq hprint, Except.mapError]

def returnedLines : Bytes :=
  "//go:build jnicall\n\n//go:build x\r\r\r\r\r\r\r\r\r\r\r\r\r\r\r\r\r\r//go:build jnicall\n\npackage p\n"

def returnedScan : Scan :=
  { name := "a_test.go", text := returnedLines, tagged := true, constraints := [(0, 18), (20, 50)] }

/-- A tree with one tagged file, whose second build line has carriage returns in it. -/
def returnedTree : Files := { entries := [(["a_test.go"], .file returnedLines)] }

/-- What the cut of that line leaves is a build line of the twin. -/
def returnedTwin : Bytes :=
  "// Code generated by jnicall from a_test.go. DO NOT EDIT.\n\n//go:build !jnicall\n"
    ++ "//go:build jnicall\n\npackage p\n"

def twinScan : Scan :=
  { name := "a_gen_test.go", text := returnedTwin, tagged := true,
    constraints := [(59, 78), (79, 97)] }

def secondTwin : Bytes :=
  "// Code generated by jnicall from a_gen_test.go. DO NOT EDIT.\n\n//go:build !jnicall\n\n"
    ++ "// Code generated by jnicall from a_test.go. DO NOT EDIT.\n\npackage p\n"

def printedTwin : Bytes :=
  Host.Columns.keepMark :: "// Code generated by jnicall from a_test.go. DO NOT EDIT."
    ++ [Host.Columns.keepMark, 0x0c, 0x0c, Host.Columns.keepMark] ++ "//go:build !jnicall"
    ++ [Host.Columns.keepMark, 0x0c, 0x0c, Host.Columns.keepMark] ++ "//go:build jnicall"
    ++ [Host.Columns.keepMark] ++ "\n\npackage p\n"

/-- The twins that the two runs write. -/
theorem returned_rewrite (r : Registry) :
    returnedScan.rewrite {} r = { text := some returnedTwin }
      ∧ twinScan.rewrite {} r = { text := some secondTwin } := by
  have hedited : returnedScan.edited {} [] = "\n\n//go:build jnicall\n\npackage p\n" := by
    rw [Scan.edited_of_sorted rfl (by decide)]
    decide +kernel
  -- `mergeSort` does not reduce, so what it gives is put in its place.
  have hlines : ([61, 84] : List Nat).mergeSort (· ≤ ·) = [61, 84] :=
    List.mergeSort_of_pairwise (by simp)
  have harranged : Host.Columns.trim (Host.Columns.align
      (Host.BuildLines.arrange printedTwin [61, 84] [])) = returnedTwin := by
    unfold Host.BuildLines.arrange
    simp only [List.append_nil, hlines]
    decide +kernel
  constructor
  · refine Scan.rewrite_of_finish rfl rfl rfl ?_ r
    rw [hedited, ← harranged]
    exact finish_of_printed rfl (by decide +kernel)
  · refine Scan.rewrite_of_finish rfl rfl rfl ?_ r
    rw [Scan.edited_of_sorted rfl (by decide)]
    decide +kernel

/-- What the two runs read. -/
theorem returned_reads :
    collect returnedTree "_gen.go" ["."] = .ok ["a_test.go"] ∧
      Scan.run {} "a_test.go" returnedLines = .ok returnedScan ∧
      Scan.run {} "a_gen_test.go" returnedTwin = .ok twinScan := by
  decide +kernel

theorem returnedTree_isPrepared : IsPrepared {} {} returnedTree ["."] [(returnedScan, [])] {} := by
  obtain ⟨hcollect, hrun, -⟩ := returned_reads
  have hscan : scanFile returnedTree {} "a_test.go" = .ok returnedScan :=
    scanFile_eq_ok_iff.mpr ⟨returnedLines, by decide, hrun⟩
  exact ⟨[returnedScan], {}, isSources_of_scans hcollect (.cons ⟨hscan, rfl⟩ .nil), rfl, rfl⟩

theorem returnedTree_separate : Separate {} returnedTree [(returnedScan, [])] :=
  ⟨List.pairwise_singleton _ _, by decide⟩

def returnedAfter : Files := returnedTree.put ["a_gen_test.go"] (.file returnedTwin)

theorem returnedAfter_isPrepared :
    IsPrepared {} {} returnedAfter ["."] [(twinScan, []), (returnedScan, [])] {} := by
  obtain ⟨-, hrun, hrunTwin⟩ := returned_reads
  have htwin : scanFile returnedAfter {} "a_gen_test.go" = .ok twinScan :=
    scanFile_eq_ok_iff.mpr ⟨returnedTwin, by decide, hrunTwin⟩
  have hscan : scanFile returnedAfter {} "a_test.go" = .ok returnedScan :=
    scanFile_eq_ok_iff.mpr ⟨returnedLines, by decide, hrun⟩
  have hcollect : collect returnedAfter "_gen.go" ["."] = .ok ["a_gen_test.go", "a_test.go"] := by
    cbv
  exact ⟨[twinScan, returnedScan], {},
    isSources_of_scans hcollect (.cons ⟨htwin, rfl⟩ (.cons ⟨hscan, rfl⟩ .nil)), rfl, rfl⟩

/-- The stretch of a comment is as long as its text without carriage returns. What is cut of such a
    build line leaves another one, so that the twin is a source of the next run, which writes a twin
    of the twin. -/
theorem run_again_writes :
    returnedTree.IsTree ∧ IsPrepared {} {} returnedTree ["."] [(returnedScan, [])] {}
      ∧ Separate {} returnedTree [(returnedScan, [])]
      ∧ run {} {} {} returnedTree ["."]
        = (.ok [⟨"a_test.go", "a_gen_test.go", some returnedTwin, true, []⟩], {}, returnedAfter)
      ∧ run {} {} {} returnedAfter ["."]
        = (.ok [⟨"a_gen_test.go", "a_gen_gen_test.go", some secondTwin, true, []⟩,
            ⟨"a_test.go", "a_gen_test.go", some returnedTwin, false, []⟩], {},
          returnedAfter.put ["a_gen_gen_test.go"] (.file secondTwin)) := by
  refine ⟨by decide, returnedTree_isPrepared, returnedTree_separate, ?_, ?_⟩
  · rw [run_of_prepared {} returnedTree_isPrepared]
    simp only [outputs, output, returned_rewrite]
    rfl
  · rw [run_of_prepared {} returnedAfter_isPrepared]
    simp only [outputs, output, returned_rewrite]
    rfl

end BridgeCall.Generate
