/-
  BridgeCall/Proofs/Marker/Calls.lean
  ===================================
  **Which calls of the marker function are noted.**  Looking for markers stops at a
  call of the marker function, so that the outermost calls of a file are noted, each
  exactly once, as a marker or as a problem, and the calls inside of them are not
  (`Scan.everyCall_eq`).  A file where no such call stands inside another one has no
  call that is passed over (`Scan.outer_calls_noted`), and its twin keeps no byte of any
  of them (`Scan.no_call_taken_over`).

  The environment of a marker is copied into its code, so that a call which stands
  there is in the twin as it is in the file (`Scan.inner_call_left`).
-/
import BridgeCall.Proofs.Marker.Tagging
import BridgeCall.Proofs.Marker.Twin
import Mathlib.Logic.Relation

namespace BridgeCall

/-! ### Calls anywhere in a tree -/

/-- A call of the marker function: what becomes of its value, the call, and its arguments. -/
abbrev MarkerCall := Host.Use × Host.Node × List Host.Node

/-- The first node stands right below the second one. -/
def Host.Node.PartOf (below above : Host.Use × Host.Node) : Prop := below ∈ above.2.parts

namespace Scan

variable {qualifier fn : Bytes}

/-- A node as a call of the marker function, when it is one. -/
def ownCall (qualifier fn : Bytes) (use : Host.Use) (n : Host.Node) : List MarkerCall :=
  ((markerArgs? qualifier fn n).map fun args => (use, n, args)).toList

/-- The calls of the marker function anywhere in a node, outer ones before those inside of them. -/
def everyCall (qualifier fn : Bytes) (use : Host.Use) (n : Host.Node) : List MarkerCall :=
  ownCall qualifier fn use n
    ++ n.parts.attach.flatMap fun ⟨(u, c), _⟩ => everyCall qualifier fn u c
termination_by sizeOf n
decreasing_by exact Host.Node.sizeOf_lt_of_mem_parts ‹_›

/-- The calls of the marker function inside of a call. -/
def inside (qualifier fn : Bytes) (c : MarkerCall) : List MarkerCall :=
  c.2.1.parts.flatMap fun (u, n) => everyCall qualifier fn u n

theorem everyCall_unfold (use : Host.Use) (n : Host.Node) :
    everyCall qualifier fn use n
      = ownCall qualifier fn use n
        ++ n.parts.flatMap fun (u, c) => everyCall qualifier fn u c := by
  rw [everyCall, List.flatMap_subtype fun _ _ => rfl, List.unattach_attach]

theorem markerCalls_unfold (use : Host.Use) (n : Host.Node) :
    markerCalls qualifier fn use n =
      match markerArgs? qualifier fn n with
      | some args => [(use, n, args)]
      | none => n.parts.flatMap fun (u, c) => markerCalls qualifier fn u c := by
  rw [markerCalls]
  cases markerArgs? qualifier fn n with
  | some args => rfl
  | none =>
    have hparts := List.flatMap_subtype (l := n.parts.attach)
      (f := fun x => markerCalls qualifier fn x.1.1 x.1.2)
      (g := fun x => markerCalls qualifier fn x.1 x.2) fun _ _ => rfl
    rw [List.unattach_attach] at hparts
    exact hparts

/-- A statement about all nodes, when it holds of a node whose parts have it. -/
theorem node_induction {p : Host.Use → Host.Node → Prop}
    (h : ∀ use n, (∀ u c, (u, c) ∈ n.parts → p u c) → p use n) (use : Host.Use) (n : Host.Node) :
    p use n :=
  h use n fun u c _ => node_induction h u c
termination_by sizeOf n
decreasing_by exact Host.Node.sizeOf_lt_of_mem_parts ‹_›

/-- The calls anywhere in a node are those that can be reached from it. -/
theorem mem_everyCall {use u : Host.Use} {n c : Host.Node} {args : List Host.Node} :
    (u, c, args) ∈ everyCall qualifier fn use n
      ↔ Relation.ReflTransGen Host.Node.PartOf (u, c) (use, n)
        ∧ markerArgs? qualifier fn c = some args := by
  induction use, n using node_induction with
  | h use n ih =>
    rw [everyCall_unfold, List.mem_append, List.mem_flatMap]
    constructor
    · rintro (hown | ⟨⟨v, m⟩, hpart, hm⟩)
      · cases hargs : markerArgs? qualifier fn n with
        | none => simp [ownCall, hargs] at hown
        | some args' =>
          obtain ⟨rfl, rfl, rfl⟩ : u = use ∧ c = n ∧ args = args' := by
            simpa [ownCall, hargs] using hown
          exact ⟨.refl, hargs⟩
      · obtain ⟨hreach, hargs⟩ := (ih v m hpart).mp hm
        exact ⟨hreach.tail hpart, hargs⟩
    · rintro ⟨hreach, hargs⟩
      rcases Relation.ReflTransGen.cases_tail hreach with heq | ⟨⟨v, m⟩, hreach, hpart⟩
      · obtain ⟨rfl, rfl⟩ := Prod.mk.inj heq
        exact .inl (by simp [ownCall, hargs])
      · exact .inr ⟨(v, m), hpart, (ih v m hpart).mpr ⟨hreach, hargs⟩⟩

/-- The calls anywhere in a node are the outermost ones, each with those inside of it. -/
theorem everyCall_eq (use : Host.Use) (n : Host.Node) :
    everyCall qualifier fn use n
      = (markerCalls qualifier fn use n).flatMap fun c => c :: inside qualifier fn c := by
  induction use, n using node_induction with
  | h use n ih =>
    rw [everyCall_unfold, markerCalls_unfold, ownCall]
    cases markerArgs? qualifier fn n with
    | some args => simp [inside]
    | none =>
      dsimp only [Option.map_none, Option.toList_none, List.nil_append]
      rw [List.flatMap_assoc]
      exact List.flatMap_congr fun part hpart => ih part.1 part.2 hpart

/-! ### What becomes of one call -/

/-- The marker that a call of the marker function is, or its problem. -/
def judge (t : Host.Lines) (file text : Bytes) : MarkerCall → Except Diagnostic Marker
  | (use, call, args) =>
    let span (n : Host.Node) : Span := t.span file n.pos n.stop
    match args with
    | [env, .literal p .string lit] =>
      match Quoted.unquote? lit with
      | none =>
        .error
          { span := t.span file p (p + lit.length)
            kind := .marker
            message := "invalid string literal: invalid syntax" }
      | some expr =>
        let start := t.position file p
        .ok
          { start := call.pos - 1
            stop := call.stop - 1
            env := Bytes.slice (env.pos - 1) (env.stop - 1) text
            expr
            exprStart := { start with offset := start.offset + 1, column := start.column + 1 }
            span := span call
            use }
    | [_, x] =>
      .error { span := span x, kind := .marker, message := "call expression must be a string literal" }
    | _ =>
      .error
        { span := span call
          kind := .marker
          message := "marker takes an environment and a call expression, got "
            ++ Bytes.ofNat args.length ++ " arguments" }

theorem kind_of_judge {t : Host.Lines} {file text : Bytes} {c : MarkerCall} {d : Diagnostic}
    (h : judge t file text c = .error d) : d.kind = .marker := by
  revert h
  fun_cases judge t file text c
  all_goals
    intro h
    cases h
    try rfl

theorem judge_stretch {t : Host.Lines} {file text : Bytes} {c : MarkerCall} {m : Marker}
    (h : judge t file text c = .ok m) : m.start = c.2.1.pos - 1 ∧ m.stop = c.2.1.stop - 1 := by
  revert h
  fun_cases judge t file text c
  all_goals
    intro h
    cases h
    try exact ⟨rfl, rfl⟩

/-- What was found, with one more marker or problem. -/
def add (s : Scan) : Except Diagnostic Marker → Scan
  | .ok m => { s with markers := s.markers ++ [m] }
  | .error d => { s with problems := s.problems ++ [d] }

theorem run_get_bind {α : Type} (k : Scan → ScanM α) (s : Scan) :
    (get >>= k : ScanM α).run s = (k s).run s := rfl

/-- A call is noted as what it is, and nothing else is. -/
theorem noteMarker_eq (t : Host.Lines) (c : MarkerCall) (s : Scan) :
    ((noteMarker t c.1 c.2.1 c.2.2).run s).2 = s.add (judge t s.name s.text c) := by
  fun_cases judge t s.name s.text c with
  | case1 use call env p lit hlit =>
    unfold noteMarker
    rw [run_get_bind]
    dsimp only
    rw [hlit]
    rfl
  | case2 use call span env p lit expr hlit start =>
    unfold noteMarker
    rw [run_get_bind]
    dsimp only
    rw [hlit]
    rfl
  | case3 use call span env x hx =>
    unfold noteMarker
    rw [run_get_bind]
    dsimp only
    split
    · rename_i p lit h
      simp only [List.cons.injEq, and_true] at h
      exact (hx p lit h.2).elim
    · rename_i h
      simp only [List.cons.injEq, and_true] at h
      obtain ⟨rfl, rfl⟩ := h
      rfl
    · rename_i h
      exact (h env x rfl).elim
  | case4 use call args span hx hlength =>
    unfold noteMarker
    rw [run_get_bind]
    dsimp only
    split
    · rename_i env p lit
      exact (hx env p lit rfl).elim
    · rename_i env x _
      exact (hlength env x rfl).elim
    · rfl

/-! ### A whole file -/

/-- The markers that were found, and the problems of calls that are none. -/
def found (s : Scan) : List Marker × List Diagnostic :=
  (s.markers, s.problems.filter fun d => d.kind = .marker)

theorem undirected_found : Undirected found where
  problems s span message := by simp [found]
  packages _ _ := rfl
  exports _ _ := rfl

theorem unconstrained_found : Unconstrained found := ⟨fun _ _ => rfl, fun _ _ => rfl⟩

theorem found_forM (t : Host.Lines) (calls : List MarkerCall) (s : Scan) :
    found ((calls.forM fun c => noteMarker t c.1 c.2.1 c.2.2).run s).2 =
      ((found s).1 ++ (calls.map (judge t s.name s.text)).filterMap Except.toOption,
        (found s).2 ++ (calls.map (judge t s.name s.text)).filterMap failure?) := by
  induction calls generalizing s with
  | nil => exact Prod.ext (List.append_nil _).symm (List.append_nil _).symm
  | cons c calls ih =>
    have hstep := noteMarker_eq t c s
    have hrun : ((List.forM (c :: calls) fun c => noteMarker t c.1 c.2.1 c.2.2).run s).2
        = ((calls.forM fun c => noteMarker t c.1 c.2.1 c.2.2).run
          (s.add (judge t s.name s.text c))).2 := by
      rw [← hstep]
      rfl
    rw [hrun, ih, List.map_cons]
    cases hjudge : judge t s.name s.text c with
    | ok m => simp [add, found, List.filterMap_cons, failure?, Except.toOption]
    | error d =>
      simp [add, found, List.filterMap_cons, failure?, Except.toOption, kind_of_judge hjudge]

/-- What is found in a syntax tree. -/
def ofFile (settings : Settings) (name text : Bytes) (f : Host.File) : Scan :=
  ((do
    noteConstraints settings.buildTag f
    noteDirectives f
    noteMarkers settings.marker f : ScanM Unit).run { name, text }).2

theorem run_eq (settings : Settings) (name text : Bytes) :
    run settings name text = (Host.File.parse text).map (ofFile settings name text) := by
  unfold run
  cases Host.File.parse text <;> rfl

theorem ofFile_text (settings : Settings) (name text : Bytes) (f : Host.File) :
    (ofFile settings name text f).text = text := by
  have hrest : Preserves head (do
      noteDirectives f
      noteMarkers settings.marker f) :=
    (undirected_head.noteDirectives f).bind fun _ => unmarked_head.noteMarkers settings.marker f
  have hhead := (hrest _).trans (head_noteConstraints settings.buildTag f { name, text })
  exact congrArg (fun h => h.2.1) hhead

/-- The outermost calls of the marker function in a file. -/
def outerCalls (name fn : Bytes) (f : Host.File) : List MarkerCall :=
  f.decls.flatMap (markerCalls name fn .operand)

/-- The calls of the marker function anywhere in a file. -/
def allCalls (name fn : Bytes) (f : Host.File) : List MarkerCall :=
  f.decls.flatMap (everyCall name fn .operand)

theorem found_ofFile {settings : Settings} {path name : Bytes} {f : Host.File}
    (hcut : Bytes.cut "." settings.marker = some (qualifier, fn))
    (himport : markerImport? f qualifier = some (path, name)) (file text : Bytes) :
    found (ofFile settings file text f) =
      (((outerCalls name fn f).map (judge f.lines file text)).filterMap Except.toOption,
        ((outerCalls name fn f).map (judge f.lines file text)).filterMap failure?) := by
  let before : ScanM Unit := do
    noteConstraints settings.buildTag f
    noteDirectives f
  let s := (before.run { name := file, text }).2
  have hfound : found s = ([], []) :=
    (undirected_found.noteDirectives f _).trans (unconstrained_found.noteConstraints _ f _)
  have hhead : head s = head ((noteConstraints settings.buildTag f).run { name := file, text }).2 :=
    undirected_head.noteDirectives f _
  rw [head_noteConstraints, head, headAfter, Prod.mk.injEq, Prod.mk.injEq] at hhead
  obtain ⟨hname, htext, -⟩ := hhead
  have hrun : ofFile settings file text f
      = (((outerCalls name fn f).forM fun c => noteMarker f.lines c.1 c.2.1 c.2.2).run
        { s with imported := some (path, name) }).2 := by
    change ((noteMarkers settings.marker f).run s).2 = _
    unfold noteMarkers
    rw [hcut]
    dsimp only
    rw [himport]
    rfl
  rw [hrun, found_forM]
  dsimp only [found] at hfound ⊢
  rw [Prod.mk.injEq] at hfound
  rw [hfound.1, hfound.2, hname, htext]
  rfl

/-- No call of the marker function stands inside of another one. -/
def Flat (name fn : Bytes) (f : Host.File) : Prop := ∀ c ∈ outerCalls name fn f, inside name fn c = []

instance (name fn : Bytes) (f : Host.File) : Decidable (Flat name fn f) :=
  inferInstanceAs (Decidable (∀ c ∈ outerCalls name fn f, inside name fn c = []))

theorem allCalls_eq (name fn : Bytes) (f : Host.File) :
    allCalls name fn f = (outerCalls name fn f).flatMap fun c => c :: inside name fn c := by
  rw [allCalls, outerCalls, List.flatMap_assoc]
  exact List.flatMap_congr fun d _ => everyCall_eq .operand d

theorem Flat.allCalls {name fn : Bytes} {f : Host.File} (h : Flat name fn f) :
    allCalls name fn f = outerCalls name fn f := by
  have hsingle : ∀ c ∈ outerCalls name fn f, c :: inside name fn c = [c] := by
    intro c hc
    rw [h c hc]
  rw [allCalls_eq, List.flatMap_congr hsingle, List.flatMap_singleton']

/-- A file has as many calls as outermost ones when none stands inside of another one. -/
theorem flat_iff_length {name fn : Bytes} {f : Host.File} :
    Flat name fn f ↔ (outerCalls name fn f).length = (allCalls name fn f).length := by
  constructor
  · intro h
    rw [h.allCalls]
  · intro h c hc
    rw [allCalls_eq] at h
    generalize outerCalls name fn f = calls at h hc
    have hge : ∀ calls : List MarkerCall,
        calls.length ≤ (calls.flatMap fun c => c :: inside name fn c).length := by
      intro calls
      induction calls with
      | nil => exact Nat.le_refl _
      | cons c calls ih =>
        rw [List.flatMap_cons, List.length_append, List.length_cons, List.length_cons]
        omega
    obtain ⟨before, after, rfl⟩ := List.append_of_mem hc
    have hbefore := hge before
    have hafter := hge after
    rw [List.flatMap_append, List.flatMap_cons, List.length_append, List.length_append,
      List.length_append, List.length_cons, List.length_cons] at h
    exact List.length_eq_zero_iff.mp (by omega)

theorem length_outcomes (l : List (Except Diagnostic Marker)) :
    (l.filterMap Except.toOption).length + (l.filterMap failure?).length = l.length := by
  induction l with
  | nil => rfl
  | cons e l ih =>
    cases e with
    | ok m =>
      simp only [List.filterMap_cons, Except.toOption, failure?, List.length_cons]
      omega
    | error d =>
      simp only [List.filterMap_cons, Except.toOption, failure?, List.length_cons]
      omega

/-- A twin has the code of each outermost call, and none of the bytes it keeps stands in one. -/
theorem calls_of_twin {settings : Settings} {path name : Bytes} {f : Host.File}
    (hcut : Bytes.cut "." settings.marker = some (qualifier, fn))
    (himport : markerImport? f qualifier = some (path, name)) {file text out : Bytes} {r : Registry}
    (htwin : ((ofFile settings file text f).rewrite settings r).text = some out) :
    let s := ofFile settings file text f
    ∃ edits, s.finish settings (Edit.splice text edits) (!(s.plans settings).isEmpty) = .ok out
      ∧ (∀ c ∈ outerCalls name fn f, ∃ m p code, judge f.lines file text c = .ok m
        ∧ m.expand settings = .ok (p, code)
        ∧ ⟨c.2.1.pos - 1, c.2.1.stop - 1, code⟩ ∈ edits)
      ∧ ∀ a b k, .kept a b ∈ Edit.pieces text edits → a ≤ k ∧ k < b →
        ∀ c ∈ outerCalls name fn f, ¬ (c.2.1.pos - 1 ≤ k ∧ k < c.2.1.stop - 1) := by
  intro s
  obtain ⟨hmarkers, hproblems⟩ := Prod.mk.inj (found_ofFile hcut himport file text)
  obtain ⟨edits, hfinish, hnone, hcode⟩ := edits_of_twin htwin
  have hedit : ∀ c ∈ outerCalls name fn f, ∃ m p code, judge f.lines file text c = .ok m
      ∧ m.expand settings = .ok (p, code) ∧ ⟨c.2.1.pos - 1, c.2.1.stop - 1, code⟩ ∈ edits := by
    intro c hc
    cases hjudge : judge f.lines file text c with
    | error d =>
      have hd : d ∈ s.problems.filter fun d => d.kind = .marker := by
        rw [hproblems]
        exact List.mem_filterMap.mpr ⟨.error d, List.mem_map.mpr ⟨c, hc, hjudge⟩, rfl⟩
      have hmem := (List.mem_filter.mp hd).1
      rw [hnone] at hmem
      cases hmem
    | ok m =>
      have hm : m ∈ s.markers := by
        rw [hmarkers]
        exact List.mem_filterMap.mpr ⟨.ok m, List.mem_map.mpr ⟨c, hc, hjudge⟩, rfl⟩
      obtain ⟨p, code, hexpand, hmem⟩ := hcode m hm
      obtain ⟨hstart, hstop⟩ := judge_stretch hjudge
      rw [hstart, hstop] at hmem
      exact ⟨m, p, code, rfl, hexpand, hmem⟩
  rw [ofFile_text] at hfinish
  refine ⟨edits, hfinish, hedit, ?_⟩
  intro a b k hkept hk c hc
  obtain ⟨m, p, code, -, -, hmem⟩ := hedit c hc
  exact Edit.kept_outside hkept hk hmem

/-- **Every outermost call is noted once.** In a file that imports the marker package, each call of the
    marker function that stands inside of no other one becomes exactly one marker or exactly one
    problem, in the order of the file, and the calls inside of these are all that is passed over; so
    nothing is when no call stands inside of another one. A twin has the code of each noted call, and
    none of the bytes it keeps stands in one. -/
theorem outer_calls_noted {settings : Settings} {path name : Bytes} {f : Host.File}
    (hcut : Bytes.cut "." settings.marker = some (qualifier, fn))
    (himport : markerImport? f qualifier = some (path, name)) (file text : Bytes) :
    let s := ofFile settings file text f
    let problems := s.problems.filter fun d => d.kind = .marker
    let noted := (outerCalls name fn f).map (judge f.lines file text)
    (∀ u c args, (u, c, args) ∈ allCalls name fn f ↔
        (∃ d ∈ f.decls, Relation.ReflTransGen Host.Node.PartOf (u, c) (.operand, d))
          ∧ markerArgs? name fn c = some args)
    ∧ allCalls name fn f = (outerCalls name fn f).flatMap (fun c => c :: inside name fn c)
    ∧ s.markers = noted.filterMap Except.toOption ∧ problems = noted.filterMap failure?
    ∧ (Flat name fn f → allCalls name fn f = outerCalls name fn f)
    ∧ (Flat name fn f ↔ s.markers.length + problems.length = (allCalls name fn f).length)
    ∧ ∀ r out, (s.rewrite settings r).text = some out →
        ∃ edits, s.finish settings (Edit.splice text edits) (!(s.plans settings).isEmpty) = .ok out
          ∧ (∀ c ∈ outerCalls name fn f, ∃ m p code, judge f.lines file text c = .ok m
            ∧ m.expand settings = .ok (p, code)
            ∧ ⟨c.2.1.pos - 1, c.2.1.stop - 1, code⟩ ∈ edits)
          ∧ ∀ a b k, .kept a b ∈ Edit.pieces text edits → a ≤ k ∧ k < b →
            ∀ c ∈ outerCalls name fn f, ¬ (c.2.1.pos - 1 ≤ k ∧ k < c.2.1.stop - 1) := by
  intro s problems noted
  have hfound := Prod.mk.inj (found_ofFile hcut himport file text)
  have hmarkers : s.markers = noted.filterMap Except.toOption := hfound.1
  have hproblems : problems = noted.filterMap failure? := hfound.2
  have hlength : s.markers.length + problems.length = (outerCalls name fn f).length := by
    rw [hmarkers, hproblems, length_outcomes, List.length_map]
  refine ⟨?_, allCalls_eq name fn f, hmarkers, hproblems, Flat.allCalls, ?_,
    fun r out htwin => calls_of_twin hcut himport htwin⟩
  · intro u c args
    rw [allCalls, List.mem_flatMap]
    constructor
    · rintro ⟨d, hd, hc⟩
      obtain ⟨hreach, hargs⟩ := mem_everyCall.mp hc
      exact ⟨⟨d, hd, hreach⟩, hargs⟩
    · rintro ⟨⟨d, hd, hreach⟩, hargs⟩
      exact ⟨d, hd, mem_everyCall.mpr ⟨hreach, hargs⟩⟩
  · rw [hlength]
    exact flat_iff_length

/-- **No call is taken over.** In a file where no call of the marker function stands inside of another
    one, the twin has the code of every call in its place, and no byte of any call is kept. -/
theorem no_call_taken_over {settings : Settings} {path name : Bytes} {f : Host.File}
    (hcut : Bytes.cut "." settings.marker = some (qualifier, fn))
    (himport : markerImport? f qualifier = some (path, name)) (hflat : Flat name fn f)
    {file text out : Bytes} {r : Registry}
    (htwin : ((ofFile settings file text f).rewrite settings r).text = some out) :
    let s := ofFile settings file text f
    ∃ edits, s.finish settings (Edit.splice text edits) (!(s.plans settings).isEmpty) = .ok out
      ∧ (∀ c ∈ allCalls name fn f, ∃ m p code, judge f.lines file text c = .ok m
        ∧ m.expand settings = .ok (p, code)
        ∧ ⟨c.2.1.pos - 1, c.2.1.stop - 1, code⟩ ∈ edits)
      ∧ ∀ a b k, .kept a b ∈ Edit.pieces text edits → a ≤ k ∧ k < b →
        ∀ c ∈ allCalls name fn f, ¬ (c.2.1.pos - 1 ≤ k ∧ k < c.2.1.stop - 1) := by
  rw [hflat.allCalls]
  exact calls_of_twin hcut himport htwin

/-- A file with a marker in a function literal and a call that is none. -/
def apart : Bytes :=
  "package p\n\nimport \"github.com/dhamidi/jnicall\"\n\nfunc f() \x7b\n\tgo func() \x7b\n"
    ++ "\t\tjnicall.Call(e, \"o.m() -> void\")\n\t\x7d()\n\tjnicall.Call(e)\n\x7d\n"

/-- A file with a marker in the environment of another one. -/
def nested : Bytes :=
  "package p\n\nimport \"github.com/dhamidi/jnicall\"\n\nfunc f() \x7b\n"
    ++ "\tjnicall.Call(jnicall.Call(e, \"o.e() -> a.E\"), \"o.m() -> void\")\n\x7d\n"

/-- What a file that imports the marker package has, as it is read. -/
theorem exists_calls (text : Bytes) (flat : Bool) (n : Nat)
    (h : ((Host.File.parse text).toOption.any fun f =>
      decide ((markerImport? f "jnicall").map Prod.snd = some ("jnicall" : Bytes))
        && decide (Flat "jnicall" "Call" f) == flat
        && decide ((allCalls "jnicall" "Call" f).length = n)) = true) :
    ∃ f path, Host.File.parse text = .ok f
      ∧ markerImport? f "jnicall" = some (path, ("jnicall" : Bytes))
      ∧ decide (Flat "jnicall" "Call" f) = flat ∧ (allCalls "jnicall" "Call" f).length = n := by
  cases hparse : Host.File.parse text with
  | error i =>
    rw [hparse] at h
    cases h
  | ok f =>
    rw [hparse] at h
    simp only [Except.toOption, Option.any_some, Bool.and_eq_true, decide_eq_true_eq,
      beq_iff_eq] at h
    obtain ⟨⟨himport, hflat⟩, hlength⟩ := h
    obtain ⟨⟨path, name⟩, himport, rfl⟩ := Option.map_eq_some_iff.mp himport
    exact ⟨f, path, rfl, himport, hflat, hlength⟩

theorem outer_calls_noted_apart :
    ∃ f path, Host.File.parse apart = .ok f
      ∧ Bytes.cut "." (Settings.marker {}) = some (("jnicall" : Bytes), ("Call" : Bytes))
      ∧ markerImport? f "jnicall" = some (path, ("jnicall" : Bytes))
      ∧ Flat "jnicall" "Call" f
      ∧ (ofFile {} "a.go" apart f).markers.length
        + ((ofFile {} "a.go" apart f).problems.filter fun d => d.kind = .marker).length = 2 := by
  obtain ⟨f, path, hparse, himport, hflat, hlength⟩ :=
    exists_calls apart true 2 (by decide +kernel)
  have hcut : Bytes.cut "." (Settings.marker {}) = some (("jnicall" : Bytes), ("Call" : Bytes)) := by
    decide
  obtain ⟨-, -, -, -, -, hcount, -⟩ := outer_calls_noted hcut himport "a.go" apart
  have hflat := of_decide_eq_true hflat
  exact ⟨f, path, hparse, hcut, himport, hflat, (hcount.mp hflat).trans hlength⟩

/-- A call inside of another one becomes neither a marker nor a problem, and it is the environment of
    the marker that the outer one becomes. -/
theorem inner_call_left :
    ∃ f path s, Host.File.parse nested = .ok f ∧ run {} "a.go" nested = .ok s
      ∧ markerImport? f "jnicall" = some (path, ("jnicall" : Bytes))
      ∧ (allCalls "jnicall" "Call" f).length = 2 ∧ ¬ Flat "jnicall" "Call" f
      ∧ s.markers.map Marker.env = ["jnicall.Call(e, \"o.e() -> a.E\")"] ∧ s.problems = [] := by
  obtain ⟨f, path, hparse, himport, hflat, hlength⟩ := exists_calls nested false 2 (by decide +kernel)
  have hrun : ((run {} "a.go" nested).toOption.any fun s =>
      decide (s.markers.map Marker.env = [("jnicall.Call(e, \"o.e() -> a.E\")" : Bytes)])
        && decide (s.problems = [])) = true := by
    decide +kernel
  cases hs : run {} "a.go" nested with
  | error i =>
    rw [hs] at hrun
    cases hrun
  | ok s =>
    rw [hs] at hrun
    simp only [Except.toOption, Option.any_some, Bool.and_eq_true, decide_eq_true_eq] at hrun
    exact ⟨f, path, s, hparse, rfl, himport, hlength, of_decide_eq_false hflat, hrun.1, hrun.2⟩

end Scan
end BridgeCall
