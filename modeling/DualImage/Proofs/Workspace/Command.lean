import DualImage.Compiler.Commands
import DualImage.Proofs.Workspace.Staleness

/-! Commands: which tool writes what, and how a command ends that writes nothing. -/
namespace DualImage

theorem Text.endsWith_append (before tail : Text) : (before ++ tail).endsWith tail = true :=
  List.isSuffixOf_iff_suffix.2 (List.suffix_append ..)

/-- Of two endings of one text one is an ending of the other. -/
theorem Text.endsWith_append_eq_false (before tail ending : Text)
    (ht : tail.endsWith ending = false) (he : ending.endsWith tail = false) :
    (before ++ tail).endsWith ending = false := by
  rw [Bool.eq_false_iff]
  intro h
  rcases List.suffix_or_suffix_of_suffix (List.isSuffixOf_iff_suffix.1 h)
    (List.suffix_append before.codes tail.codes) with hs | hs
  · rw [endsWith, List.isSuffixOf_iff_suffix.2 hs] at ht
    cases ht
  · rw [endsWith, List.isSuffixOf_iff_suffix.2 hs] at he
    cases he

namespace Command
variable {before : Text} {arguments : List Text}

theorem output?_objdump : output? ((before ++ "objdump") :: arguments) = none := by
  have hgcc := Text.endsWith_append_eq_false before "objdump" "gcc" rfl rfl
  have har := Text.endsWith_append_eq_false before "objdump" "ar" rfl rfl
  have hcopy := Text.endsWith_append_eq_false before "objdump" "objcopy" rfl rfl
  simp [output?, tool, hgcc, har, hcopy]

theorem output?_objcopy :
    output? ((before ++ "objcopy") :: arguments) =
      ((before ++ "objcopy") :: arguments).getLast?.map .ofText := by
  have hgcc := Text.endsWith_append_eq_false before "objcopy" "gcc" rfl rfl
  have har := Text.endsWith_append_eq_false before "objcopy" "ar" rfl rfl
  have hcopy := Text.endsWith_append before "objcopy"
  simp [output?, tool, hgcc, har, hcopy]

theorem output?_ar :
    output? ((before ++ "ar") :: arguments) = (arguments.drop 1).head?.map .ofText := by
  have hgcc := Text.endsWith_append_eq_false before "ar" "gcc" rfl rfl
  have har := Text.endsWith_append before "ar"
  simp [output?, tool, hgcc, har]

/-- A compiler writes what the first option for its output names. -/
theorem output?_gcc {front rest : List Text} {target : Text} (hfront : ("-o" : Text) ∉ front) :
    output? ((before ++ "gcc") :: (front ++ ("-o" : Text) :: target :: rest)) = some (.ofText target) := by
  have htool : before ++ "gcc" ≠ ("-o" : Text) := by
    intro h
    have hend := Text.endsWith_append before "gcc"
    rw [h] at hend
    exact absurd hend (by decide)
  have hpass : ∀ word ∈ (before ++ "gcc") :: front, (word != ("-o" : Text)) = true := by
    intro word hword
    rw [bne_iff_ne]
    rcases List.mem_cons.1 hword with rfl | hword
    · exact htool
    · rintro rfl
      exact hfront hword
  have hdrop : ((before ++ "gcc") :: (front ++ ("-o" : Text) :: target :: rest)).dropWhile
      (· != ("-o" : Text)) = ("-o" : Text) :: target :: rest := by
    rw [← List.cons_append, List.dropWhile_append_of_pos hpass, List.dropWhile_cons_of_neg (by simp)]
  have hends : (tool ((before ++ "gcc") :: (front ++ ("-o" : Text) :: target :: rest))).endsWith
      "gcc" = true := Text.endsWith_append before "gcc"
  unfold output?
  rw [if_pos hends, hdrop]

end Command

namespace Compiler

theorem tool_eq_ok_iff {c : Compiler} {name : String} {t : Text} :
    c.tool name = .ok t ↔ ∃ p, c.toolPrefix.shown = .ok p ∧ t = p ++ name := by
  unfold tool
  cases c.toolPrefix.shown with
  | error f => simp [bind, Except.bind]
  | ok p => simp [bind, Except.bind, pure, Except.pure, eq_comm]

theorem endsWith_of_tool {c : Compiler} {name : String} {t : Text} (h : c.tool name = .ok t) :
    t.endsWith name = true := by
  obtain ⟨p, -, rfl⟩ := tool_eq_ok_iff.1 h
  exact Text.endsWith_append p name

theorem beside_eq_ok {path longer : Path} {ending : String} (h : beside path ending = .ok longer) :
    path.parts ≠ [] ∧ longer = ⟨path.anchor, path.parts.dropLast ++ [path.name ++ ending]⟩ := by
  unfold beside Path.withName? at h
  by_cases hp : path.parts = []
  · rw [if_pos hp] at h
    cases h
  · rw [if_neg hp] at h
    cases h
    exact ⟨hp, rfl⟩

end Compiler

namespace Tools

/-- How a command ends that writes nothing. -/
def reply (t : Tools) (c : Command) : Except Failure (Option String) :=
  match t.rule? c with
  | none => .ok (some (c.shows t.listings))
  | some rule =>
    if rule.absent then .error (.command c none (FileFault.missing.describe c.tool))
    else if rule.status != 0 then
      .error (.command c (some rule.status) (rule.stdout.getD "" ++ rule.stderr.getD ""))
    else .ok rule.stdout

/-- What a dump of the symbols of a file shows. -/
def dump (t : Tools) (c : Compiler) (artifact : Path) : Except Failure (Option String) :=
  c.tool "objdump" >>= fun tool => t.reply [tool, "-t", artifact.toText]

end Tools

namespace World
variable {w : World} {c : Command}

/-- The command is shown and recorded. -/
def started (w : World) (c : Command) : World :=
  { w with console := w.console.say Console.verbose c.text, commands := w.commands ++ [c] }

theorem unmoved_started (w : World) (c : Command) : Unmoved w (w.started c) := ⟨_, _, rfl⟩

private theorem run_apply (c : Command) (w : World) :
    run c w = (match w.tools.rule? c with
      | none => do
        if let some p := c.output? then renew c p
        return some (c.shows w.tools.listings)
      | some rule => do
        if rule.absent then throw (.command c none (FileFault.missing.describe c.tool))
        if rule.status != 0 then
          throw (.command c (some rule.status) (rule.stdout.getD "" ++ rule.stderr.getD ""))
        return rule.stdout : Action (Option String)) (w.started c) := rfl

/-- A command with a rule, and one without an output, only ends. -/
theorem run_eq_reply (h : c.output? = none ∨ w.tools.rule? c ≠ none) :
    run c w = outcomeIn (w.tools.reply c) (w.started c) := by
  rw [run_apply, Tools.reply]
  cases hrule : w.tools.rule? c with
  | none =>
    rw [h.resolve_right fun hne => hne hrule]
    rfl
  | some rule =>
    dsimp only
    cases rule.absent with
    | true => rfl
    | false =>
      cases hstatus : rule.status != 0 with
      | true => rfl
      | false => rfl

theorem run_eq_renew {p : Path} (hrule : w.tools.rule? c = none) (hc : c.output? = some p) :
    run c w = (renew c p >>= fun _ => pure (some (c.shows w.tools.listings))) (w.started c) := by
  rw [run_apply, hrule, hc]

section
variable {step : Disk → Except FileFault Disk}

private theorem change_of_ok {d : Disk} (h : step w.disk = .ok d) :
    change step w = .ok () { w with disk := d } :=
  attempt_of_ok (by rw [h])

private theorem change_of_error {fault : FileFault} (h : step w.disk = .error fault) :
    change step w = .error (.ofFault fault) w :=
  attempt_of_error (by rw [h])

end

private theorem failingAs_of_ok {p : Path} {a : Action Unit} {w' : World} (h : a w = .ok () w') :
    failingAs c p a w = .ok () w' := by
  rw [failingAs, h]

private theorem failingAs_of_error {p : Path} {a : Action Unit} {f : Failure} {w' : World}
    (h : a w = .error f w') : ∃ f, failingAs c p a w = .error f w' := by
  rw [failingAs, h]
  cases f <;> exact ⟨_, rfl⟩

theorem failingAs_eq_ok {p : Path} {a : Action Unit} {w' : World}
    (h : failingAs c p a w = .ok () w') : a w = .ok () w' := by
  unfold failingAs at h
  split at h
  · cases h
  · exact h

/-- Where the directory is there already, a tool renews its output or changes nothing. -/
theorem renew_cases {p : Path} (hdir : w.disk.hasDirectory p.parent = true) :
    (∃ f, renew c p w = .error f w) ∨
      ∃ place d, renew c p w = .ok () { w with disk := d } ∧ w.disk.locate p = .ok place ∧
        Disk.Renewed place w.disk d := by
  have hensure : ensureDirectories p.parent w = .ok () w :=
    attempt_of_ok (Disk.ensureDirectories_of_hasDirectory hdir)
  have hfirst : renew c p w = failingAs c p (change (·.touch p none)) w :=
    Action.bind_of_ok (failingAs_of_ok hensure)
  rw [hfirst]
  cases htouch : w.disk.touch p none with
  | error fault => exact .inl (failingAs_of_error (change_of_error htouch))
  | ok d =>
    obtain ⟨place, hplace, hr⟩ := Disk.touch_eq_ok htouch
    exact .inr ⟨place, d, failingAs_of_ok (change_of_ok htouch), hplace, hr⟩

/-- A command fails and leaves the files alone, or it renews its output. A rule that lets the
command pass is left out. -/
theorem run_cases {p : Path} (hc : c.output? = some p)
    (hrules : ∀ rule, w.tools.rule? c = some rule → rule.absent = true ∨ rule.status ≠ 0)
    (hdir : w.disk.hasDirectory p.parent = true) :
    (∃ f, run c w = .error f (w.started c)) ∨
      ∃ shown place d, run c w = .ok shown { w.started c with disk := d } ∧
        w.disk.locate p = .ok place ∧ Disk.Renewed place w.disk d := by
  cases hrule : w.tools.rule? c with
  | some rule =>
    left
    rw [run_eq_reply (.inr (by simp [hrule])), Tools.reply, hrule]
    dsimp only
    rcases hrules rule hrule with habsent | hstatus
    · rw [if_pos habsent]
      exact ⟨_, rfl⟩
    · rw [if_pos (bne_iff_ne.2 hstatus)]
      split <;> exact ⟨_, rfl⟩
  | none =>
    rw [run_eq_renew hrule hc]
    rcases renew_cases (c := c) (w := w.started c) hdir with ⟨f, hf⟩ | ⟨place, d, hok, hplace, hr⟩
    · exact .inl ⟨f, Action.bind_of_error hf⟩
    · exact .inr ⟨_, place, d, Action.bind_of_ok hok, hplace, hr⟩

end World

/-- The command lists symbols. -/
def Command.Lists (c : Command) : Prop := c.tool.endsWith "objdump" = true

/-- The files stay as they are, and commands of one kind only are started. -/
def World.Quiet (P : Command → Prop) (w w' : World) : Prop :=
  ∃ console new, (∀ c ∈ new, P c) ∧ w' = { w with console, commands := w.commands ++ new }

section
variable {P : Command → Prop} {w w' : World}
open World (Quiet)

instance : IsPreorder World (Quiet P) where
  refl w := ⟨w.console, [], List.forall_mem_nil _, by rw [List.append_nil]⟩
  trans _ _ _ := by
    rintro ⟨console, new, hnew, rfl⟩ ⟨console', new', hnew', rfl⟩
    exact ⟨console', new ++ new', List.forall_mem_append.2 ⟨hnew, hnew'⟩, by rw [List.append_assoc]⟩

theorem World.Quiet.unmoved (h : Quiet P w w') : Unmoved w w' := by
  obtain ⟨console, new, -, rfl⟩ := h
  exact ⟨console, w.commands ++ new, rfl⟩

theorem Spoken.quiet (h : Spoken w w') : Quiet P w w' := by
  obtain ⟨console, rfl⟩ := h
  exact ⟨console, [], List.forall_mem_nil _, by rw [List.append_nil]⟩

end

namespace Answers
open World
variable {w : World}

theorem run {P : Command → Prop} {c : Command} (hc : c.output? = none) (hP : P c) :
    Answers (Quiet P) (run c) (w.tools.reply c) w := by
  refine ⟨w.started c, ?_, run_eq_reply (.inl hc)⟩
  exact ⟨w.console.say Console.verbose c.text, [c], List.forall_mem_singleton.2 hP, rfl⟩

theorem dumpSymbols (c : Compiler) (artifact : Path) :
    Answers (Quiet Command.Lists) (c.dumpSymbols artifact) (w.tools.dump c artifact) w := by
  unfold Compiler.dumpSymbols Compiler.runTool Tools.dump
  cases ht : c.tool "objdump" with
  | error f => exact failing (.throw f)
  | ok tool =>
    obtain ⟨before, -, rfl⟩ := Compiler.tool_eq_ok_iff.1 ht
    refine (lift _).andThen fun w' hw' => ?_
    rw [← hw'.unmoved.tools]
    exact run Command.output?_objdump (Text.endsWith_append before "objdump")

end Answers
end DualImage
