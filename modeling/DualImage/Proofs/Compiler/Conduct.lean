import DualImage.Proofs.Compiler.Course

/-! What a build does to a world however it ends, said once for every relation that its single steps
respect, and the reasons for which a step can fail. -/
namespace DualImage
variable {σ τ α β : Type}

/-- A tool, the file system or a value is to blame. All other failures are refusals of the build
itself. -/
def Failure.Technical : Failure → Prop
  | .command .. | .unreadableOutput .. | .unreadableInput .. | .wrongKind | .badValue | .files _ => True
  | .target _ | .clash .. | .conflicts _ | .partlyShared .. => False

/-- A value or the file system is to blame, and no tool. -/
def Failure.Local : Failure → Prop
  | .unreadableOutput .. | .unreadableInput .. | .wrongKind | .badValue | .files _ => True
  | .command .. | .target _ | .clash .. | .conflicts _ | .partlyShared .. => False

theorem Failure.Local.technical {f : Failure} (h : f.Local) : f.Technical := by
  cases f <;> trivial

/-- The computation fails for local reasons only. -/
def Sound (r : Except Failure α) : Prop := ∀ f, r = .error f → f.Local

namespace Sound

theorem technical {r : Except Failure α} (h : Sound r) (f : Failure) (hf : r = .error f) :
    f.Technical :=
  (h f hf).technical

theorem ok (x : α) : Sound (.ok x) := fun _ h => by cases h

theorem error {f : Failure} (hf : f.Local) : Sound (.error f : Except Failure α) := by
  rintro _ ⟨⟩
  exact hf

theorem bind {r : Except Failure α} {k : α → Except Failure β} (hr : Sound r)
    (hk : ∀ x, Sound (k x)) : Sound (r >>= k) := by
  cases hr' : r with
  | error f => exact .error (hr f hr')
  | ok x => exact hk x

theorem mapM {k : α → Except Failure β} {xs : List α} (hk : ∀ x, Sound (k x)) :
    Sound (xs.mapM k) := by
  induction xs with
  | nil => exact .ok []
  | cons x rest ih =>
    rw [List.mapM_cons]
    exact (hk x).bind fun _ => ih.bind fun _ => .ok _

theorem shown (d : Document) : Sound d.shown := by
  unfold Document.shown
  cases d.shown? with
  | none => exact .error trivial
  | some t => exact .ok t

theorem words (ds : List Document) : Sound (World.words ds) := by
  refine .mapM fun d => ?_
  cases d.text? with
  | none => exact .error trivial
  | some t => exact .ok t

theorem tool (c : Compiler) (name : String) : Sound (c.tool name) :=
  (shown c.toolPrefix).bind fun _ => .ok _

theorem beside (p : Path) (ending : String) : Sound (Compiler.beside p ending) := by
  unfold Compiler.beside
  cases p.withName? (p.name ++ ending) with
  | none => exact .error trivial
  | some p => exact .ok p

theorem objectPaths (sources : List Path) (objectDir : Path) :
    Sound (Compiler.objectPaths sources objectDir) := by
  unfold Compiler.objectPaths
  cases objectPaths? sources objectDir with
  | none => exact .error trivial
  | some objects => exact .ok objects

theorem compileCommand (c : Compiler) (package : Package) (defines : List Document)
    (source object : Path) : Sound (c.compileCommand package defines source object) :=
  (tool c "gcc").bind fun _ => (mapM shown).bind fun _ => words _

theorem linkCommand (c : Compiler) (archives : List Path) (script output : Path)
    (symbolFiles : List Path) : Sound (c.linkCommand archives script output symbolFiles) :=
  (tool c "gcc").bind fun _ => words _

theorem inputTime (d : Disk) (p : Path) : Sound (d.inputTime p) := by
  unfold Disk.inputTime
  split
  · exact .ok _
  · exact .error trivial
  · exact .error trivial

theorem staleness? (d : Disk) (output : Path) (inputs : List Path) :
    Sound (d.staleness? output inputs) := by
  have houtput : Sound (d.outputTime? output) := by
    unfold Disk.outputTime?
    split
    · exact .ok _
    · exact .ok _
    · exact .error trivial
    · exact .error trivial
  have hinputs (time : Int) : Sound (d.newerThan? time inputs) := by
    induction inputs with
    | nil => exact .ok none
    | cons p rest ih =>
      refine (inputTime d p).bind fun t => ?_
      split
      · exact .ok _
      · exact ih
  refine houtput.bind fun time? => ?_
  cases time? with
  | none => exact .ok _
  | some time => exact (hinputs time).bind fun _ => .ok _

end Sound

theorem Failure.local_ofFault (fault : FileFault) : (ofFault fault).Local := by
  cases fault <;> trivial

/-- However the action ends in this state, what it leaves is related to it, and it fails for such
reasons only. -/
structure Obeys (R : σ → σ → Prop) (P : Failure → Prop) (a : EStateM Failure σ α) (s : σ) : Prop where
  keeps : R s (leaves (a s))
  fails : ∀ f t, a s = .error f t → P f

namespace Obeys
variable {R : σ → σ → Prop} {P P' : Failure → Prop} {s : σ}

theorem ok {a : EStateM Failure σ α} {x : α} {t : σ} (h : Obeys R P a s) (hr : a s = .ok x t) :
    R s t := by
  have hkeeps := h.keeps
  rwa [hr] at hkeeps

theorem mono {a : EStateM Failure σ α} (h : Obeys R P a s) (hP : ∀ f, P f → P' f) :
    Obeys R P' a s :=
  ⟨h.keeps, fun f t hr => hP f (h.fails f t hr)⟩

theorem ite {p : Prop} [Decidable p] {a b : EStateM Failure σ α} (ha : Obeys R P a s)
    (hb : Obeys R P b s) : Obeys R P (if p then a else b) s := by
  split
  · exact ha
  · exact hb

theorem get_bind {f : σ → EStateM Failure σ α} (h : Obeys R P (f s) s) :
    Obeys R P (MonadState.get >>= f) s :=
  ⟨h.keeps, h.fails⟩

theorem modify {f : σ → σ} (h : R s (f s)) : Obeys R P (modify f : EStateM Failure σ Unit) s := by
  refine ⟨h, ?_⟩
  rintro _ _ ⟨⟩

/-- An action on a part obeys what its effect on the part obeys of the whole. -/
theorem within {S : τ → τ → Prop} {part : σ → τ} {back : σ → τ → σ} {a : EStateM Failure τ α}
    (h : Obeys S P a (part s)) (hR : ∀ t, S (part s) t → R s (back s t)) :
    Obeys R P (within part back a) s := by
  obtain ⟨hkeeps, hfails⟩ := h
  unfold DualImage.within
  cases ha : a (part s) with
  | ok x t =>
    rw [ha] at hkeeps
    refine ⟨?_, ?_⟩
    · rw [ha]
      exact hR t hkeeps
    · rw [ha]
      rintro _ _ ⟨⟩
  | error f t =>
    rw [ha] at hkeeps
    refine ⟨?_, ?_⟩
    · rw [ha]
      exact hR t hkeeps
    · rw [ha]
      rintro _ _ ⟨⟩
      exact hfails f t ha

section
variable [IsPreorder σ R]

theorem pure (x : α) : Obeys R P (pure x : EStateM Failure σ α) s := by
  refine ⟨refl_of R s, ?_⟩
  rintro _ _ ⟨⟩

theorem throw {f : Failure} (hf : P f) : Obeys R P (throw f : EStateM Failure σ α) s := by
  refine ⟨refl_of R s, ?_⟩
  rintro _ _ ⟨⟩
  exact hf

/-- What a later action does may depend on what the earlier one gave. -/
theorem bind_of_ok {a : EStateM Failure σ α} {f : α → EStateM Failure σ β} (ha : Obeys R P a s)
    (hf : ∀ x t, a s = .ok x t → Obeys R P (f x) t) : Obeys R P (a >>= f) s := by
  obtain ⟨hkeeps, hfails⟩ := ha
  have happly := Action.bind_apply a f s
  cases hr : a s with
  | error g t =>
    rw [hr] at happly hkeeps
    refine ⟨by rw [happly]; exact hkeeps, fun g' t' hr' => ?_⟩
    rw [happly] at hr'
    cases hr'
    exact hfails g t hr
  | ok x t =>
    rw [hr] at happly hkeeps
    obtain ⟨hkeeps', hfails'⟩ := hf x t hr
    refine ⟨by rw [happly]; exact trans_of R hkeeps hkeeps', fun g t' hr' => ?_⟩
    rw [happly] at hr'
    exact hfails' g t' hr'

theorem bind {a : EStateM Failure σ α} {f : α → EStateM Failure σ β} (ha : Obeys R P a s)
    (hf : ∀ x t, R s t → Obeys R P (f x) t) : Obeys R P (a >>= f) s :=
  ha.bind_of_ok fun x t hr => hf x t (ha.ok hr)

theorem discard {a : EStateM Failure σ α} (ha : Obeys R P a s) :
    Obeys R P (discard a : EStateM Failure σ PUnit) s :=
  ha.bind fun _ _ _ => .pure _

/-- Every step finds a state that the steps before it could leave. -/
theorem forM {f : α → EStateM Failure σ PUnit} {xs : List α}
    (h : ∀ x ∈ xs, ∀ t, R s t → Obeys R P (f x) t) : Obeys R P (xs.forM f) s := by
  induction xs generalizing s with
  | nil => exact .pure _
  | cons x xs ih =>
    obtain ⟨hx, hxs⟩ := List.forall_mem_cons.1 h
    refine (hx s (refl_of R s)).bind fun _ t ht => ih fun y hy u hu => ?_
    exact hxs y hy u (trans_of R ht hu)

theorem foldlM {f : β → α → EStateM Failure σ β} {xs : List α}
    (h : ∀ b, ∀ x ∈ xs, ∀ t, R s t → Obeys R P (f b x) t) (b : β) :
    Obeys R P (xs.foldlM f b) s := by
  induction xs generalizing b s with
  | nil => exact .pure _
  | cons x xs ih =>
    rw [List.foldlM_cons]
    refine (h b x List.mem_cons_self s (refl_of R s)).bind fun b' t ht => ih (fun b y hy u hu => ?_) b'
    exact h b y (List.mem_cons_of_mem _ hy) u (trans_of R ht hu)

end

section
variable {R : World → World → Prop} {w : World}

/-- An action with a settled outcome that only speaks. -/
theorem of_answers {a : Action α} {r : Except Failure α} (hspoken : ∀ w w', Spoken w w' → R w w')
    (ha : Answers Spoken a r w) (hr : ∀ f, r = .error f → P f) : Obeys R P a w := by
  refine ⟨?_, fun f w' he => hr f (ha.of_error he).1⟩
  obtain ⟨w', hw, h⟩ := ha
  rw [h]
  cases r <;> exact hspoken w w' hw

variable [IsPreorder World R]

theorem lift {r : Except Failure α} (h : ∀ f, r = .error f → P f) : Obeys R P (World.lift r) w := by
  cases r with
  | ok x => exact .pure x
  | error f => exact .throw (h f rfl)

/-- What follows may count on the outcome that it needs. -/
theorem lift_bind {r : Except Failure α} {f : α → Action β} (hr : ∀ f, r = .error f → P f)
    (hf : ∀ x, r = .ok x → Obeys R P (f x) w) : Obeys R P (World.lift r >>= f) w := by
  cases hr' : r with
  | ok x => exact hf x hr'
  | error g =>
    refine ⟨refl_of R w, ?_⟩
    rintro _ w' ⟨⟩
    exact hr g hr'

end
end Obeys

/-- A relation that every step of a build respects, whether the step succeeds or not. Commands,
archives and records are those that the build may start, make and write. -/
structure Conduct (C : Command → Prop) (A B : Path → Prop) (R : World → World → Prop) : Prop where
  spoken : ∀ w w', Spoken w w' → R w w'
  directories : ∀ p, Keeps R (World.ensureDirectories p)
  record : ∀ p text, B p → Keeps R (World.writeIfChanged p text)
  delete : ∀ p, A p → Keeps R (World.change (·.delete p))
  run : ∀ c, C c → Keeps R (World.run c)

/-- Of the world nothing is known. -/
def World.Anyhow (_ _ : World) : Prop := True

instance : IsPreorder World World.Anyhow where
  refl _ := trivial
  trans _ _ _ _ _ := trivial

/-- Every step is allowed. -/
theorem conduct_anyhow :
    Conduct (fun _ => True) (fun _ => True) (fun _ => True) World.Anyhow :=
  ⟨fun _ _ _ => trivial, fun _ _ => trivial, fun _ _ _ _ => trivial, fun _ _ _ => trivial,
    fun _ _ _ => trivial⟩

section
variable {c : Command}

theorem attempt_eq_error {step : Disk → Except FileFault α × Disk} {w w' : World} {f : Failure}
    (hr : World.attempt step w = .error f w') :
    f.Local ∧ ∃ fault d, step w.disk = (.error fault, d) ∧ w' = { w with disk := d } := by
  rcases hs : step w.disk with ⟨fault | x, d⟩
  · rw [World.attempt_of_error hs] at hr
    cases hr
    exact ⟨Failure.local_ofFault fault, fault, d, rfl, rfl⟩
  · rw [World.attempt_of_ok hs] at hr
    cases hr

theorem technical_attempt {step : Disk → Except FileFault α × Disk} {w w' : World} {f : Failure}
    (hr : World.attempt step w = .error f w') : f.Technical :=
  (attempt_eq_error hr).1.technical

private theorem failingAs_eq_error {p : Path} {step : Disk → Except FileFault Unit × Disk}
    {w w' : World} {f : Failure} (hr : World.failingAs c p (World.attempt step) w = .error f w') :
    (f.Local ∨ ∃ status output, f = .command c status output) ∧
      ∃ fault d, step w.disk = (.error fault, d) ∧ w' = { w with disk := d } := by
  unfold World.failingAs at hr
  split at hr
  · next h =>
    cases hr
    exact ⟨.inr ⟨_, _, rfl⟩, (attempt_eq_error h).2⟩
  · exact ⟨.inl (attempt_eq_error hr).1, (attempt_eq_error hr).2⟩

private theorem reply_eq_error {t : Tools} {f : Failure} (h : t.reply c = .error f) :
    ∃ status output, f = .command c status output := by
  unfold Tools.reply at h
  split at h
  · cases h
  · split at h
    · cases h
      exact ⟨_, _, rfl⟩
    · split at h <;> cases h
      exact ⟨_, _, rfl⟩

private theorem change_touch_eq_error {p : Path} {d d' : Disk} {fault : FileFault}
    (h : (match d.touch p none with
      | .ok d' => (.ok (), d')
      | .error fault => (.error fault, d) : Except FileFault Unit × Disk) = (.error fault, d')) :
    d' = d := by
  split at h <;> cases h
  rfl

/-- A command fails for reasons of its tool, or of the files that it has to write. It has made
directories at most. -/
theorem run_eq_error {w w' : World} {f : Failure} (hr : World.run c w = .error f w') :
    (f.Local ∨ ∃ status output, f = .command c status output) ∧
      ∃ d, w' = { w.started c with disk := d } ∧ (d = w.disk ∨
        ∃ p, c.output? = some p ∧ d = (w.disk.ensureDirectories p.parent).2) := by
  by_cases hplain : c.output? = none ∨ w.tools.rule? c ≠ none
  · rw [World.run_eq_reply hplain] at hr
    cases hreply : w.tools.reply c with
    | ok x =>
      rw [hreply] at hr
      cases hr
    | error g =>
      rw [hreply] at hr
      cases hr
      exact ⟨.inr (reply_eq_error hreply), w.disk, rfl, .inl rfl⟩
  · obtain ⟨hout, hrule⟩ := not_or.1 hplain
    obtain ⟨q, hq⟩ := Option.ne_none_iff_exists'.1 hout
    rw [World.run_eq_renew (not_not.1 hrule) hq] at hr
    rcases Action.bind_eq_error_iff.1 hr with hrenew | ⟨_, _, -, hr⟩
    · rcases Action.bind_eq_error_iff.1 hrenew with hdirs | ⟨_, w₁, hdirs, htouch⟩
      · obtain ⟨hf, fault, d, hd, rfl⟩ := failingAs_eq_error hdirs
        exact ⟨hf, d, rfl, .inr ⟨q, hq, (congrArg Prod.snd hd).symm⟩⟩
      · obtain ⟨d, hd, rfl⟩ := World.attempt_eq_ok (World.failingAs_eq_ok hdirs)
        obtain ⟨hf, fault, d', hd', rfl⟩ := failingAs_eq_error htouch
        obtain rfl := change_touch_eq_error hd'
        exact ⟨hf, d', rfl, .inr ⟨q, hq, (congrArg Prod.snd hd).symm⟩⟩
    · cases hr

theorem technical_run {w w' : World} {f : Failure} (hr : World.run c w = .error f w') :
    f.Technical := by
  rcases (run_eq_error hr).1 with hlocal | ⟨status, output, rfl⟩
  · exact hlocal.technical
  · trivial

private def SameCommands (w w' : World) : Prop := w'.commands = w.commands

private instance : IsPreorder World SameCommands where
  refl _ := rfl
  trans _ _ _ h h' := Eq.trans h' h

private theorem keeps_renewal_commands (p : Path) : Keeps SameCommands (World.renew c p) := by
  have hdirectories : Keeps SameCommands (World.ensureDirectories p.parent) := Keeps.attempt fun _ => rfl
  have htouch : Keeps SameCommands (World.change (·.touch p none)) := Keeps.change fun _ _ _ => rfl
  exact (Keeps.failingAs hdirectories).bind fun _ => Keeps.failingAs htouch

/-- A command that succeeds is recorded. -/
theorem World.commands_of_run {w w' : World} {shown : Option String}
    (hr : World.run c w = .ok shown w') : w'.commands = w.commands ++ [c] := by
  by_cases hplain : c.output? = none ∨ w.tools.rule? c ≠ none
  · rw [run_eq_reply hplain] at hr
    cases hreply : w.tools.reply c with
    | ok x =>
      rw [hreply] at hr
      cases hr
      rfl
    | error f =>
      rw [hreply] at hr
      cases hr
  · obtain ⟨hout, hrule⟩ := not_or.1 hplain
    obtain ⟨p, hp⟩ := Option.ne_none_iff_exists'.1 hout
    rw [run_eq_renew (not_not.1 hrule) hp] at hr
    exact ((keeps_renewal_commands p).bind fun _ => .pure _).ok hr

end

namespace Conduct
open World (say sayAll)
variable {C : Command → Prop} {A B : Path → Prop} {R : World → World → Prop} {P : Failure → Prop}
  (h : Conduct C A B R) {c : Compiler} {w : World}
include h

theorem say (level : Int) (message : Text) : Obeys R P (say level message) w :=
  .of_answers h.spoken (.say level message) (by rintro _ ⟨⟩)

theorem sayAll (level : Int) (messages : List Text) : Obeys R P (sayAll level messages) w :=
  .of_answers h.spoken (.sayAll level messages) (by rintro _ ⟨⟩)

theorem readListing (o : Listing.Origin) (text : Option String) :
    Obeys R Failure.Technical (World.readListing o text) w := by
  refine .of_answers h.spoken (.readListing o text) ?_
  cases text with
  | none => exact (Sound.error (f := .wrongKind) trivial).technical
  | some text => exact (Sound.ok _).technical

private theorem of_run {command : Command} (hc : C command) :
    Obeys R Failure.Technical (World.run command) w :=
  ⟨h.run command hc w, fun _ _ => technical_run⟩

private theorem of_directories (p : Path) :
    Obeys R Failure.Technical (World.ensureDirectories p) w :=
  ⟨h.directories p w, fun _ _ => technical_attempt⟩

private theorem of_record {p : Path} (text : Text) (hp : B p) :
    Obeys R Failure.Technical (World.writeIfChanged p text) w :=
  ⟨h.record p text hp w, fun _ _ => technical_attempt⟩

private theorem of_delete {p : Path} (hp : A p) :
    Obeys R Failure.Technical (World.change (·.delete p)) w :=
  ⟨h.delete p hp w, fun _ _ => technical_attempt⟩

variable [IsPreorder World R]

theorem isStale (output : Path) (inputs : List Path) :
    Obeys R Failure.Technical (World.isStale output inputs) w := by
  refine Obeys.get_bind ?_
  have hsound := Sound.staleness? w.disk output inputs
  cases hs : w.disk.staleness? output inputs with
  | error f => exact .throw (hsound f hs).technical
  | ok stale? =>
    cases stale? with
    | none => exact .pure false
    | some s => exact (h.say _ _).bind fun _ _ _ => .pure true

private theorem runTool {name : String} {arguments : Command}
    (hC : ∀ tool, c.tool name = .ok tool → C (tool :: arguments)) :
    Obeys R Failure.Technical (c.runTool name arguments) w :=
  .lift_bind (Sound.tool c name).technical fun tool htool => h.of_run (hC tool htool)

theorem compileSource {package : Package} {defines : List Document} {source object : Path}
    (hC : ∀ command, c.compileCommand package defines source object = .ok command → C command) :
    Obeys R Failure.Technical (c.compileSource package defines source object) w := by
  refine (h.isStale object [source]).bind fun stale _ _ => ?_
  cases stale with
  | false => exact .pure ()
  | true =>
    refine (h.say _ _).bind fun _ _ _ => ?_
    exact .lift_bind (Sound.compileCommand c package defines source object).technical fun command hcommand =>
      (h.of_run (hC command hcommand)).discard

theorem compile {package : Package} {defines : List Document} {objectDir : Path}
    (hC : ∀ objects, objectPaths? package.sources objectDir = some objects →
      ∀ object ∈ objects, ∀ source command,
        c.compileCommand package defines source object = .ok command → C command) :
    Obeys R Failure.Technical (c.compile package objectDir defines) w := by
  refine (h.of_directories objectDir).bind fun _ _ _ => ?_
  refine .lift_bind (Sound.objectPaths package.sources objectDir).technical fun objects hobjects => ?_
  have hsome := Compiler.objectPaths_eq_ok_iff.1 hobjects
  refine (Obeys.forM ?_).bind fun _ _ _ => .pure objects
  rintro ⟨source, object⟩ hmem _ -
  exact h.compileSource (hC objects hsome object (List.of_mem_zip hmem).2 source)

theorem archive {objects : List Path} {path : Path} (hA : A path)
    (hC : ∀ tool, c.tool "ar" = .ok tool →
      C (tool :: "rcs" :: path.toText :: objects.map Path.toText)) :
    Obeys R Failure.Technical (c.archive objects path) w := by
  refine (h.of_directories path.parent).bind fun _ _ _ => ?_
  refine (h.isStale path objects).bind fun stale w _ => ?_
  have hmake {w : World} : Obeys R Failure.Technical (do
      World.say Console.normal ("Archiving " ++ path.name)
      discard <| c.runTool "ar" ("rcs" :: path.toText :: objects.map Path.toText)
      return path : Action Path) w :=
    (h.say _ _).bind fun _ _ _ => (h.runTool hC).discard.bind fun _ _ _ => .pure path
  cases stale with
  | false => exact .pure path
  | true => exact Obeys.get_bind (.ite ((h.of_delete hA).bind fun _ _ _ => hmake) hmake)

theorem link {archives symbolFiles : List Path} {script output : Path}
    (hB : ∀ record, Compiler.beside output ".cmd" = .ok record → B record)
    (hC : ∀ command, c.linkCommand archives script output symbolFiles = .ok command → C command) :
    Obeys R Failure.Technical (c.link archives script output symbolFiles) w := by
  refine (h.of_directories output.parent).bind fun _ _ _ => ?_
  refine .lift_bind (Sound.beside output ".cmd").technical fun record hrecord => ?_
  refine .lift_bind (Sound.linkCommand c archives script output symbolFiles).technical
    fun command hcommand => ?_
  refine (h.of_record _ (hB record hrecord)).discard.bind fun _ _ _ => ?_
  refine (h.isStale output _).bind fun stale _ _ => ?_
  cases stale with
  | false => exact (h.say _ _).bind fun _ _ _ => .pure output
  | true =>
    refine (h.say _ _).bind fun _ _ _ => ?_
    exact (h.of_run (hC command hcommand)).discard.bind fun _ _ _ => .pure output

theorem dumpSymbols {artifact : Path}
    (hC : ∀ tool, c.tool "objdump" = .ok tool → C [tool, "-t", artifact.toText]) :
    Obeys R Failure.Technical (c.dumpSymbols artifact) w :=
  h.runTool hC

/-- Copying and renaming, for commands that end in the name of the binary that they edit. -/
theorem copyKeeping {source target : Path} {keep : List String}
    (hB : ∀ list, Compiler.keepFile target = .ok list → B list)
    (hC : ∀ tool words, c.tool "objcopy" = .ok tool → C (tool :: (words ++ [target.toText]))) :
    Obeys R Failure.Technical (c.copyKeeping source keep target) w := by
  refine .lift_bind (Sound.beside target ".keep").technical fun list hlist => ?_
  refine (h.of_record _ (hB list hlist)).discard.bind fun _ _ _ => ?_
  refine (h.runTool fun tool htool => ?_).discard.bind fun _ _ _ => .pure target
  exact hC tool ["--keep-global-symbols=" ++ list.toText, source.toText] htool

theorem renameSymbols {artifact : Path} {names : List String} {ending : String}
    (hC : ∀ tool words, c.tool "objcopy" = .ok tool → C (tool :: (words ++ [artifact.toText]))) :
    Obeys R Failure.Technical (c.renameSymbols artifact names ending) w :=
  (h.runTool fun tool htool => hC tool _ htool).discard

end Conduct
end DualImage
