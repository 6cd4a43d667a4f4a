import DualImage.Proofs.Compiler.Frame

/-! What a build that goes well does to a world, said once for every relation that its single steps
respect. -/
namespace DualImage
variable {ε σ τ α β : Type}

/-- When the action succeeds, the state that it leaves is related to the one it finds. -/
def Ensures (R : σ → σ → Prop) (a : EStateM ε σ α) : Prop := ∀ ⦃s x t⦄, a s = .ok x t → R s t

namespace Ensures
variable {R : σ → σ → Prop}

theorem of_keeps {a : EStateM ε σ α} (h : Keeps R a) : Ensures R a := fun _ _ _ hr => h.ok hr

theorem ite {p : Prop} [Decidable p] {a b : EStateM ε σ α} (ha : Ensures R a) (hb : Ensures R b) :
    Ensures R (if p then a else b) := by
  split
  · exact ha
  · exact hb

theorem discard {a : EStateM ε σ α} (ha : Ensures R a) :
    Ensures R (discard a : EStateM ε σ PUnit) := by
  intro s _ u hr
  obtain ⟨x, hx⟩ := Action.discard_eq_ok_iff.1 hr
  exact ha hx

/-- What follows may count on the outcome that it needs. -/
theorem lift_bind {R : World → World → Prop} {r : Except Failure α} {f : α → Action β}
    (hf : ∀ x, r = .ok x → Ensures R (f x)) : Ensures R (World.lift r >>= f) := by
  cases hr : r with
  | error e =>
    intro w y w' h
    cases h
  | ok x => exact hf x hr

section
variable [IsPreorder σ R]

theorem pure (x : α) : Ensures R (pure x : EStateM ε σ α) := of_keeps (.pure x)

/-- What a later action does may depend on what the earlier one gave, from the state it was in. -/
theorem bind_of_ok {a : EStateM ε σ α} {f : α → EStateM ε σ β} (ha : Ensures R a)
    (hf : ∀ s x t, a s = .ok x t → ∀ y u, f x t = .ok y u → R t u) : Ensures R (a >>= f) := by
  intro s y u hr
  obtain ⟨x, t, hx, hy⟩ := Action.bind_eq_ok_iff.1 hr
  exact trans_of R (ha hx) (hf s x t hx y u hy)

theorem bind {a : EStateM ε σ α} {f : α → EStateM ε σ β} (ha : Ensures R a)
    (hf : ∀ x, Ensures R (f x)) : Ensures R (a >>= f) :=
  ha.bind_of_ok fun _ x _ _ _ _ hr => hf x hr

theorem forM {f : α → EStateM ε σ PUnit} {xs : List α} (h : ∀ x ∈ xs, Ensures R (f x)) :
    Ensures R (xs.forM f) := by
  induction xs with
  | nil => exact .pure _
  | cons x xs ih =>
    obtain ⟨hx, hxs⟩ := List.forall_mem_cons.1 h
    exact hx.bind fun _ => ih hxs

theorem foldlM {f : β → α → EStateM ε σ β} {xs : List α} (h : ∀ b, ∀ x ∈ xs, Ensures R (f b x))
    (b : β) : Ensures R (xs.foldlM f b) := by
  induction xs generalizing b with
  | nil => exact .pure _
  | cons x xs ih =>
    rw [List.foldlM_cons]
    apply (h b x List.mem_cons_self).bind
    intro b'
    exact ih (fun b y hy => h b y (List.mem_cons_of_mem _ hy)) b'

end

end Ensures

namespace Compiler
open World
variable {c : Compiler} {w w' : World}

/-- An object that is out of date is compiled. -/
theorem compileSource_steps {package : Package} {defines : List Document} {source object : Path}
    (hr : c.compileSource package defines source object w = .ok () w') :
    ∃ stale w₁, World.isStale object [source] w = .ok stale w₁ ∧
      if stale then ∃ command w₂ shown, c.compileCommand package defines source object = .ok command ∧
        Spoken w₁ w₂ ∧ World.run command w₂ = .ok shown w'
      else w' = w₁ := by
  obtain ⟨stale, w₁, hstale, hr⟩ := Action.bind_eq_ok_iff.1 hr
  refine ⟨stale, w₁, hstale, ?_⟩
  cases stale with
  | false =>
    cases hr
    rfl
  | true =>
    obtain ⟨_, w₂, hsay, hr⟩ := Action.bind_eq_ok_iff.1 hr
    obtain ⟨command, w₃, hlift, hr⟩ := Action.bind_eq_ok_iff.1 hr
    obtain ⟨hcommand, hw₃⟩ := lift_eq_ok_iff.1 hlift
    obtain ⟨shown, hrun⟩ := Action.discard_eq_ok_iff.1 hr
    rw [hw₃] at hrun
    exact ⟨command, w₂, shown, hcommand, ((Answers.say ..).of_ok hsay).2, hrun⟩

/-- A package is compiled source by source. -/
theorem compile_steps {package : Package} {objectDir : Path} {defines : List Document}
    {objects : List Path} (hr : c.compile package objectDir defines w = .ok objects w') :
    objectPaths? package.sources objectDir = some objects ∧
      ∃ w₁, ensureDirectories objectDir w = .ok () w₁ ∧
        (package.sources.zip objects).forM (fun pair =>
          c.compileSource package defines pair.1 pair.2) w₁ = .ok ⟨⟩ w' := by
  obtain ⟨_, w₁, hdirectories, hr⟩ := Action.bind_eq_ok_iff.1 hr
  obtain ⟨_, w₂, hlift, hr⟩ := Action.bind_eq_ok_iff.1 hr
  obtain ⟨hobjects, hw₂⟩ := lift_eq_ok_iff.1 hlift
  obtain ⟨_, w₃, hcompile, hr⟩ := Action.bind_eq_ok_iff.1 hr
  cases hr
  rw [hw₂] at hcompile
  exact ⟨objectPaths_eq_ok_iff.1 hobjects, w₁, hdirectories, hcompile⟩

/-- An archive that is out of date is made anew, in place of the old one. -/
theorem archive_steps {objects : List Path} {path p : Path}
    (hr : c.archive objects path w = .ok p w') :
    p = path ∧ ∃ w₁ stale w₂, ensureDirectories path.parent w = .ok () w₁ ∧
      isStale path objects w₁ = .ok stale w₂ ∧
      if stale then ∃ w₃ w₄ tool shown,
        (if (w₂.disk.entry path).isOk then change (·.delete path) w₂ = .ok () w₃ else w₃ = w₂) ∧
        Spoken w₃ w₄ ∧ c.tool "ar" = .ok tool ∧
        run (tool :: "rcs" :: path.toText :: objects.map Path.toText) w₄ = .ok shown w'
      else w' = w₂ := by
  have hrest : ∀ {w₃ : World}, (do
      say Console.normal ("Archiving " ++ path.name)
      discard <| c.runTool "ar" ("rcs" :: path.toText :: objects.map Path.toText)
      return path : Action Path) w₃ = .ok p w' →
      p = path ∧ ∃ w₄ tool shown, Spoken w₃ w₄ ∧ c.tool "ar" = .ok tool ∧
        run (tool :: "rcs" :: path.toText :: objects.map Path.toText) w₄ = .ok shown w' := by
    intro w₃ hr
    obtain ⟨_, w₄, hsay, hr⟩ := Action.bind_eq_ok_iff.1 hr
    obtain ⟨_, w₅, hrun, hr⟩ := Action.bind_eq_ok_iff.1 hr
    obtain ⟨shown, hrun⟩ := Action.discard_eq_ok_iff.1 hrun
    obtain ⟨tool, w₆, hlift, hrun⟩ := Action.bind_eq_ok_iff.1 hrun
    obtain ⟨htool, hw₆⟩ := lift_eq_ok_iff.1 hlift
    rw [hw₆] at hrun
    cases hr
    exact ⟨rfl, w₄, tool, shown, ((Answers.say ..).of_ok hsay).2, htool, hrun⟩
  obtain ⟨_, w₁, hdirectories, hr⟩ := Action.bind_eq_ok_iff.1 hr
  obtain ⟨stale, w₂, hstale, hr⟩ := Action.bind_eq_ok_iff.1 hr
  cases stale with
  | false =>
    cases hr
    exact ⟨rfl, w₁, false, w', hdirectories, hstale, rfl⟩
  | true =>
    replace hr := (Action.get_bind_apply _ w₂).symm.trans hr
    cases hthere : (w₂.disk.entry path).isOk with
    | true =>
      rw [hthere] at hr
      obtain ⟨_, w₃, hdelete, hr⟩ := Action.bind_eq_ok_iff.1 hr
      obtain ⟨hpath, w₄, tool, shown, hsay, htool, hrun⟩ := hrest hr
      exact ⟨hpath, w₁, true, w₂, hdirectories, hstale, w₃, w₄, tool, shown,
        by rw [hthere]; exact hdelete, hsay, htool, hrun⟩
    | false =>
      rw [hthere] at hr
      obtain ⟨hpath, w₄, tool, shown, hsay, htool, hrun⟩ := hrest hr
      exact ⟨hpath, w₁, true, w₂, hdirectories, hstale, w₂, w₄, tool, shown,
        by rw [hthere]; rfl, hsay, htool, hrun⟩

/-- A binary that is out of date is linked, after its command has been recorded. -/
theorem link_steps {archives symbolFiles : List Path} {script output p : Path}
    (hr : c.link archives script output symbolFiles w = .ok p w') :
    p = output ∧ ∃ w₁ record command b w₂ stale w₃,
      ensureDirectories output.parent w = .ok () w₁ ∧
      beside output ".cmd" = .ok record ∧
      c.linkCommand archives script output symbolFiles = .ok command ∧
      writeIfChanged record (command.text ++ "\n") w₁ = .ok b w₂ ∧
      isStale output (archives ++ symbolFiles ++ [script, record]) w₂ = .ok stale w₃ ∧
      if stale then ∃ w₄ shown, Spoken w₃ w₄ ∧ run command w₄ = .ok shown w' else Spoken w₃ w' := by
  obtain ⟨_, w₁, hdirectories, hr⟩ := Action.bind_eq_ok_iff.1 hr
  obtain ⟨record, v₁, hlift₁, hr⟩ := Action.bind_eq_ok_iff.1 hr
  obtain ⟨hrecord, hv₁⟩ := lift_eq_ok_iff.1 hlift₁
  obtain ⟨command, v₂, hlift₂, hr⟩ := Action.bind_eq_ok_iff.1 hr
  obtain ⟨hcommand, hv₂⟩ := lift_eq_ok_iff.1 hlift₂
  obtain ⟨_, w₂, hwrite, hr⟩ := Action.bind_eq_ok_iff.1 hr
  obtain ⟨b, hwrite⟩ := Action.discard_eq_ok_iff.1 hwrite
  obtain ⟨stale, w₃, hstale, hr⟩ := Action.bind_eq_ok_iff.1 hr
  rw [hv₂, hv₁] at hwrite
  cases stale with
  | false =>
    obtain ⟨_, w₄, hsay, hr⟩ := Action.bind_eq_ok_iff.1 hr
    cases hr
    exact ⟨rfl, w₁, record, command, b, w₂, false, w₃, hdirectories, hrecord, hcommand, hwrite,
      hstale, ((Answers.say ..).of_ok hsay).2⟩
  | true =>
    obtain ⟨_, w₄, hsay, hr⟩ := Action.bind_eq_ok_iff.1 hr
    obtain ⟨_, w₅, hrun, hr⟩ := Action.bind_eq_ok_iff.1 hr
    obtain ⟨shown, hrun⟩ := Action.discard_eq_ok_iff.1 hrun
    cases hr
    exact ⟨rfl, w₁, record, command, b, w₂, true, w₃, hdirectories, hrecord, hcommand, hwrite,
      hstale, w₄, shown, ((Answers.say ..).of_ok hsay).2, hrun⟩

/-- The list of the symbols that stay global, each on a line of its own. -/
def keepText (keep : List String) : String := String.join ((Text.sorted keep).map (· ++ "\n"))

/-- A binary is copied with a list of the symbols that stay global. -/
theorem copyKeeping_steps {source target p : Path} {keep : List String}
    (hr : c.copyKeeping source keep target w = .ok p w') :
    ∃ list b w₁ tool shown, keepFile target = .ok list ∧
      writeIfChanged list (keepText keep) w = .ok b w₁ ∧ c.tool "objcopy" = .ok tool ∧
      run [tool, "--keep-global-symbols=" ++ list.toText, source.toText, target.toText] w₁ =
        .ok shown w' := by
  obtain ⟨list, v₁, hlift₁, hr⟩ := Action.bind_eq_ok_iff.1 hr
  obtain ⟨hlist, hv₁⟩ := lift_eq_ok_iff.1 hlift₁
  obtain ⟨_, w₁, hwrite, hr⟩ := Action.bind_eq_ok_iff.1 hr
  obtain ⟨b, hwrite⟩ := Action.discard_eq_ok_iff.1 hwrite
  obtain ⟨_, w₂, hrun, hr⟩ := Action.bind_eq_ok_iff.1 hr
  obtain ⟨shown, hrun⟩ := Action.discard_eq_ok_iff.1 hrun
  obtain ⟨tool, v₂, hlift₂, hrun⟩ := Action.bind_eq_ok_iff.1 hrun
  obtain ⟨htool, hv₂⟩ := lift_eq_ok_iff.1 hlift₂
  cases hr
  rw [hv₁] at hwrite
  rw [hv₂] at hrun
  exact ⟨list, b, w₁, tool, shown, hlist, hwrite, htool, hrun⟩

/-- The words that give symbols a longer name. -/
def renamings (names : List String) (ending : String) : Command :=
  (Text.sorted names).flatMap fun name : String =>
    ["--redefine-sym", name ++ "=" ++ name ++ ending]

theorem renameSymbols_steps {artifact : Path} {names : List String} {ending : String}
    (hr : c.renameSymbols artifact names ending w = .ok () w') :
    ∃ tool shown, c.tool "objcopy" = .ok tool ∧
      run (tool :: (renamings names ending ++ [artifact.toText])) w = .ok shown w' := by
  obtain ⟨shown, hrun⟩ := Action.discard_eq_ok_iff.1 hr
  obtain ⟨tool, v, hlift, hrun⟩ := Action.bind_eq_ok_iff.1 hrun
  obtain ⟨htool, hv⟩ := lift_eq_ok_iff.1 hlift
  rw [hv] at hrun
  exact ⟨tool, shown, htool, hrun⟩

end Compiler

/-- A relation that every step of a build respects when it succeeds. Commands and archives are those
that the build may start and make, and texts are only written to the records beside an output.
Archiving counts as one step, since the old archive is gone for a while. -/
structure Course (C : Command → Prop) (A : Path → Prop) (R : World → World → Prop) : Prop where
  spoken : ∀ w w', Spoken w w' → R w w'
  directories : ∀ p, Ensures R (World.ensureDirectories p)
  record : ∀ p ending record text, ending ∈ [".cmd", ".keep"] →
    Compiler.beside p ending = .ok record → Ensures R (World.writeIfChanged record text)
  run : ∀ c, C c → Ensures R (World.run c)
  archive : ∀ (c : Compiler) objects path, A path →
    (∀ tool, c.tool "ar" = .ok tool → C (tool :: "rcs" :: path.toText :: objects.map Path.toText)) →
    Ensures R (c.archive objects path)

namespace Course
open World (say sayAll)
variable {C : Command → Prop} {A : Path → Prop} {R : World → World → Prop} (h : Course C A R)
  {c : Compiler}
include h

theorem of_answers {a : Action α} {r : World → Except Failure α}
    (ha : ∀ w, Answers Spoken a (r w) w) : Ensures R a :=
  fun w _ w' hr => h.spoken w w' ((ha w).of_ok hr).2

theorem say (level : Int) (message : Text) : Ensures R (say level message) :=
  h.of_answers fun _ => .say level message

theorem sayAll (level : Int) (messages : List Text) : Ensures R (sayAll level messages) :=
  h.of_answers fun _ => .sayAll level messages

theorem readListing (o : Listing.Origin) (text : Option String) :
    Ensures R (World.readListing o text) :=
  h.of_answers fun _ => .readListing o text

theorem isStale (output : Path) (inputs : List Path) : Ensures R (World.isStale output inputs) :=
  fun _ _ _ hr => h.spoken _ _ (World.isStale_eq_ok hr)

theorem dumpSymbols {artifact : Path}
    (hC : ∀ tool, c.tool "objdump" = .ok tool → C [tool, "-t", artifact.toText]) :
    Ensures R (c.dumpSymbols artifact) :=
  Ensures.lift_bind fun tool htool => h.run _ (hC tool htool)

variable [IsPreorder World R]

theorem compileSource {package : Package} {defines : List Document} {source object : Path}
    (hC : ∀ command, c.compileCommand package defines source object = .ok command → C command) :
    Ensures R (c.compileSource package defines source object) := by
  apply (h.isStale object [source]).bind
  intro stale
  cases stale with
  | false => exact .pure ()
  | true =>
    apply (h.say _ _).bind
    intro _
    exact Ensures.lift_bind fun command hcommand => (h.run command (hC command hcommand)).discard

section
variable {package : Package} {defines : List Document} {objectDir : Path} {objects : List Path}

theorem compileSources {pairs : List (Path × Path)} (hC : ∀ pair ∈ pairs, ∀ command,
      c.compileCommand package defines pair.1 pair.2 = .ok command → C command) :
    Ensures R (pairs.forM fun pair => c.compileSource package defines pair.1 pair.2) :=
  Ensures.forM fun pair hpair => h.compileSource (hC pair hpair)

theorem compile (hC : ∀ objects, objectPaths? package.sources objectDir = some objects →
      ∀ pair ∈ package.sources.zip objects, ∀ command,
        c.compileCommand package defines pair.1 pair.2 = .ok command → C command) :
    Ensures R (c.compile package objectDir defines) := by
  apply (h.directories objectDir).bind
  intro _
  apply Ensures.lift_bind
  intro objects hobjects
  have hsome := Compiler.objectPaths_eq_ok_iff.1 hobjects
  exact (h.compileSources (hC objects hsome)).bind fun _ => .pure objects

/-- Compiling a package comes to each of its sources. -/
theorem source_of_compile (hC : ∀ object ∈ objects, ∀ source command,
      c.compileCommand package defines source object = .ok command → C command)
    {source object : Path} (hmem : (source, object) ∈ package.sources.zip objects) {w w' : World}
    (hr : c.compile package objectDir defines w = .ok objects w') :
    ∃ v v', R w v ∧ c.compileSource package defines source object v = .ok () v' ∧ R v' w' := by
  obtain ⟨-, w₁, hdirectories, hcompile⟩ := Compiler.compile_steps hr
  obtain ⟨front, back, v, v', hfrontSub, hbackSub, hfront, hsource, hback⟩ :=
    Action.forM_eq_ok_of_mem hmem hcompile
  have hpairs {pairs : List (Path × Path)} (hsub : pairs ⊆ package.sources.zip objects) :
      ∀ pair ∈ pairs, ∀ command, c.compileCommand package defines pair.1 pair.2 = .ok command →
        C command :=
    fun pair hpair => hC pair.2 (List.of_mem_zip (hsub hpair)).2 pair.1
  exact ⟨v, v', trans_of R (h.directories _ hdirectories) (h.compileSources (hpairs hfrontSub) hfront),
    hsource, h.compileSources (hpairs hbackSub) hback⟩

end

theorem link {archives symbolFiles : List Path} {script output : Path}
    (hC : ∀ command, c.linkCommand archives script output symbolFiles = .ok command → C command) :
    Ensures R (c.link archives script output symbolFiles) := by
  apply (h.directories output.parent).bind
  intro _
  refine Ensures.lift_bind fun record hrecord => Ensures.lift_bind fun command hcommand => ?_
  apply (h.record output ".cmd" record _ (by simp) hrecord).discard.bind
  intro _
  apply (h.isStale output _).bind
  intro stale
  cases stale with
  | false => exact (h.say _ _).bind fun _ => .pure output
  | true =>
    apply (h.say _ _).bind
    intro _
    exact (h.run command (hC command hcommand)).discard.bind fun _ => .pure output

/-- Copying and renaming, for commands that end in the name of the binary that they edit. -/
theorem copyKeeping {source target : Path} {keep : List String}
    (hC : ∀ tool words, c.tool "objcopy" = .ok tool → C (tool :: (words ++ [target.toText]))) :
    Ensures R (c.copyKeeping source keep target) := by
  apply Ensures.lift_bind
  intro list hlist
  apply (h.record target ".keep" list _ (by simp) hlist).discard.bind
  intro _
  refine (Ensures.lift_bind fun tool htool => ?_).discard.bind fun _ => .pure target
  exact h.run _ (hC tool ["--keep-global-symbols=" ++ list.toText, source.toText] htool)

omit [IsPreorder World R] in
theorem renameSymbols {artifact : Path} {names : List String} {ending : String}
    (hC : ∀ tool words, c.tool "objcopy" = .ok tool → C (tool :: (words ++ [artifact.toText]))) :
    Ensures R (c.renameSymbols artifact names ending) :=
  (Ensures.lift_bind fun tool htool => h.run _ (hC tool _ htool)).discard

end Course
end DualImage
