import DualImage.Proofs.Workspace.Standing

/-! Writing what differs. A file is read with unified line breaks and written as it is told, so a
text with carriage returns is never found in the file that holds it. -/
namespace DualImage

/-- How a file is named: by a path, or by a text in which every slash counts. -/
inductive Address where
  | path (p : Path)
  | written (t : Text)

/-- A text as it is read from a file. -/
def Text.ofFile (s : String) : Text := .ofChars (unifyBreaks s.toList)

theorem Text.return_notMem_ofFile (s : String) : CodePoint.character '\r' ∉ (ofFile s).codes := by
  intro h
  obtain ⟨c, hc, heq⟩ := List.mem_map.1 h
  cases heq
  exact return_notMem_unifyBreaks s.toList hc

theorem Text.ofFile_eq_self_iff (s : String) :
    Text.ofFile s = s ↔ CodePoint.character '\r' ∉ (s : Text).codes := by
  have hmem : CodePoint.character '\r' ∈ (s : Text).codes ↔ '\r' ∈ s.toList :=
    List.mem_map_of_injective fun _ _ => CodePoint.character.inj
  rw [hmem]
  constructor
  · intro h hreturn
    exact return_notMem_ofFile s (h ▸ hmem.2 hreturn)
  · intro h
    rw [ofFile, unifyBreaks_eq_self h]
    rfl

namespace Disk
variable {d d' : Disk} {a : Address} {place : Place} {text : Text}

def readAt (d : Disk) : Address → Except FileFault String
  | .path p => d.read p
  | .written t => d.readNamed t

def writeAt (d : Disk) (text : Text) : Address → Except FileFault Bool × Disk
  | .path p => d.writeIfChanged p text
  | .written t => d.writeNamedIfChanged t text

/-- Where a file of that name is or would be. With a slash at its end a name is not one of a file. -/
def goal (d : Disk) : Address → Except FileFault Place
  | .path p => d.locate p
  | .written t => if t.endsWith "/" then throw .isDirectory else d.follow t

/-- The address leads to a place where a file can be written, whether one is there or not. -/
structure Opens (d : Disk) (a : Address) (place : Place) : Prop where
  goal : d.goal a = .ok place
  file : ¬ d.files.IsDirectory place

private theorem follow_of_goal {t : Text} (h : d.goal (.written t) = .ok place) :
    d.follow t = .ok place ∧
      (⟨(t.codes.reverse.dropWhile (· = .character '/')).reverse⟩ : Text) = t := by
  simp only [Disk.goal] at h
  split at h
  · cases h
  · next hend =>
    have hkept : t.codes.reverse.dropWhile (· = .character '/') = t.codes.reverse := by
      cases hrev : t.codes.reverse with
      | nil => rfl
      | cons c rest =>
        refine List.dropWhile_cons_of_neg fun hc => hend ?_
        rw [Text.endsWith, List.isSuffixOf, hrev, of_decide_eq_true hc]
        rfl
    refine ⟨h, ?_⟩
    rw [hkept, List.reverse_reverse]

theorem Opens.readAt (h : d.Opens a place) :
    d.readAt a = d.entryOn place >>= Entry.text := by
  cases a with
  | path p =>
    have hplace : d.locate p = .ok place := h.goal
    rw [Disk.readAt, read, entry, hplace]
    rfl
  | written t =>
    rw [Disk.readAt, readNamed, entryNamed, (follow_of_goal h.goal).1]
    rfl

theorem Opens.writeAt (h : d.Opens a place) :
    d.writeAt text a = d.replace (d.entryOn place >>= Entry.text) text (d.writeOn place) := by
  have hread := h.readAt
  cases a with
  | path p =>
    have hplace : d.locate p = .ok place := h.goal
    have hwrite : d.write p = d.writeOn place := by
      funext s time
      rw [write, hplace]
      rfl
    rw [Disk.writeAt, writeIfChanged, hwrite, ← hread]
    rfl
  | written t =>
    obtain ⟨hplace, hname⟩ := follow_of_goal h.goal
    have hwrite : d.writeNamed t = d.writeOn place := by
      funext s time
      rw [writeNamed, hname, hplace]
      simp [bind, Except.bind]
    rw [Disk.writeAt, writeNamedIfChanged, hwrite, ← hread]
    rfl

/-- The text is written with the next time of the clock, unless it holds a surrogate. -/
private theorem overwrite_writeOn (hfile : ¬ d.files.IsDirectory place) (text : Text) :
    d.overwrite text (d.writeOn place) = match text.string? with
      | some s =>
        (.ok true, { d with clock := d.clock + 1 }.put place (.file (d.clock + 1) s))
      | none => (.error .unusable, d.put place (.file d.systemTime "")) := by
  have hany : (d.files.find? place).any (·.isDirectory) = false := by
    rw [← Bool.not_eq_true, ← FileTree.isDirectory_iff]
    exact hfile
  unfold overwrite
  cases text.string? with
  | none =>
    simp only [writeOn, hany]
    rfl
  | some s =>
    simp only [writeOn, hany]
    rfl

private theorem follow_mono {t : Text} (hhere : d'.here = d.here)
    (hdir : ∀ q, d.files.IsDirectory q → d'.files.IsDirectory q) (h : d.follow t = .ok place) :
    d'.follow t = .ok place := by
  unfold follow at h ⊢
  rw [hhere]
  cases hempty : t.isEmpty with
  | true =>
    rw [hempty] at h
    cases h
  | false =>
    rw [hempty] at h
    obtain ⟨_, hwritten, h⟩ := Except.bind_eq_ok_iff.1 h
    exact Except.bind_eq_ok_iff.2 ⟨_, hwritten, FileTree.locate_mono hdir h⟩

/-- The address stays good for a file when one is put there. -/
theorem Opens.put (h : d.Opens a place) (clock time : Int) (s : String) :
    ({ d with clock }.put place (.file time s)).Opens a place where
  goal := by
    have hhere : ({ d with clock }.put place (.file time s)).here = d.here := by
      unfold Disk.put
      split <;> rfl
    have hdir (q : Place) (hq : d.files.IsDirectory q) :
        ({ d with clock }.put place (.file time s)).files.IsDirectory q :=
      isDirectory_put clock (fun hplace => absurd hplace h.file) hq
    cases a with
    | path p => exact locate_mono hhere hdir h.goal
    | written t =>
      have hgoal := h.goal
      simp only [Disk.goal] at hgoal ⊢
      split at hgoal
      · cases hgoal
      · next hend =>
        rw [if_neg hend]
        exact follow_mono hhere hdir hgoal
  file := by
    rw [FileTree.isDirectory_iff, find?_put, if_pos rfl]
    exact Bool.false_ne_true

/-- What is read where a file can be written: nothing, or the text of the file that is there. -/
private theorem Opens.readAt_cases (h : d.Opens a place) :
    d.readAt a = .error .missing ∨
      ∃ time s, d.files.find? place = some (.file time s) ∧ d.readAt a = .ok s := by
  rw [h.readAt, entryOn]
  cases hfind : d.files.find? place with
  | none => exact .inl rfl
  | some e =>
    cases e with
    | file time s => exact .inr ⟨time, s, rfl, rfl⟩
    | directory time => exact absurd ⟨time, hfind⟩ h.file

/-- No file is there, or another text is read from it. -/
def Differs (d : Disk) (a : Address) (text : Text) : Prop :=
  d.readAt a = .error .missing ∨ ∃ old, d.readAt a = .ok old ∧ Text.ofFile old ≠ text

private theorem Opens.differs_or (h : d.Opens a place) (text : Text) :
    d.Differs a text ∨ ∃ old, d.readAt a = .ok old ∧ Text.ofFile old = text := by
  rcases h.readAt_cases with hmissing | ⟨_, old, -, hold⟩
  · exact .inl (.inl hmissing)
  · by_cases hsame : Text.ofFile old = text
    · exact .inr ⟨old, hold, hsame⟩
    · exact .inl (.inr ⟨old, hold, hsame⟩)

private theorem not_differs {old : String} (hold : d.readAt a = .ok old)
    (hsame : Text.ofFile old = text) : ¬ d.Differs a text := by
  rintro (hmissing | ⟨old', hold', hne⟩)
  · cases hold.symm.trans hmissing
  · cases hold.symm.trans hold'
    exact hne hsame

private theorem Opens.writeAt_same (h : d.Opens a place) {old : String}
    (hold : d.readAt a = .ok old) (hsame : Text.ofFile old = text) :
    d.writeAt text a = (.ok false, d) := by
  rw [h.writeAt, ← h.readAt, hold]
  exact if_pos hsame

private theorem Opens.writeAt_differs (h : d.Opens a place) (hdiffers : d.Differs a text) :
    d.writeAt text a = match text.string? with
      | some s =>
        (.ok true, { d with clock := d.clock + 1 }.put place (.file (d.clock + 1) s))
      | none => (.error .unusable, d.put place (.file d.systemTime "")) := by
  rw [h.writeAt, ← h.readAt, ← overwrite_writeOn h.file]
  rcases hdiffers with hmissing | ⟨old, hold, hne⟩
  · rw [hmissing]
    rfl
  · rw [hold]
    exact if_neg hne

/-- A call leaves the file alone or puts the text there. -/
private theorem Opens.writeAt_cases (h : d.Opens a place) {b : Bool}
    (hcall : d.writeAt text a = (.ok b, d')) :
    (b = false ∧ d' = d ∧ ∃ old, d.readAt a = .ok old ∧ Text.ofFile old = text) ∨
      b = true ∧ d.Differs a text ∧ ∃ s : String, text = s ∧
        d' = { d with clock := d.clock + 1 }.put place (.file (d.clock + 1) s) := by
  rcases h.differs_or text with hdiffers | ⟨old, hold, hsame⟩
  · rw [h.writeAt_differs hdiffers] at hcall
    cases hs : text.string? with
    | none =>
      rw [hs] at hcall
      cases hcall
    | some s =>
      rw [hs] at hcall
      cases hcall
      exact .inr ⟨rfl, hdiffers, s, Text.eq_ofString_of_string? hs, rfl⟩
  · rw [h.writeAt_same hold hsame] at hcall
    cases hcall
    exact .inl ⟨rfl, rfl, old, hold, hsame⟩

/-- Where a file can be written, a text without surrogates is written just when no file is there or
another text is read from it, and else nothing changes, times included. What was written is in the
file as it is. The file reads as the text and a second call writes nothing, unless the text has a
carriage return: then it reads otherwise, and every further call writes it again. -/
theorem writeAt_exact (h : d.Opens a place) (text : Text) :
    (text.string? ≠ none → ∃ b d', d.writeAt text a = (.ok b, d')) ∧
    ∀ b d', d.writeAt text a = (.ok b, d') →
      (b = true ↔ d.Differs a text) ∧
      (b = false → d' = d) ∧
      (b = true → ∃ s : String, text = s ∧
        d'.files.find? place = some (.file (d.clock + 1) s) ∧ d'.readAt a = .ok s) ∧
      (∃ held, d'.readAt a = .ok held ∧
        (Text.ofFile held = text ↔ .character '\r' ∉ text.codes)) ∧
      ∃ again d'', d'.writeAt text a = (.ok again, d'') ∧
        (again = true ↔ .character '\r' ∈ text.codes) := by
  constructor
  · intro hstring
    rcases h.differs_or text with hdiffers | ⟨old, hold, hsame⟩
    · obtain ⟨s, hs⟩ := Option.ne_none_iff_exists'.1 hstring
      rw [h.writeAt_differs hdiffers, hs]
      exact ⟨_, _, rfl⟩
    · exact ⟨_, _, h.writeAt_same hold hsame⟩
  · intro b d' hcall
    rcases h.writeAt_cases hcall with ⟨rfl, rfl, old, hold, hsame⟩ | ⟨rfl, hdiffers, s, rfl, rfl⟩
    · have hreturn : CodePoint.character '\r' ∉ text.codes := hsame ▸ Text.return_notMem_ofFile old
      exact ⟨iff_of_false Bool.false_ne_true (not_differs hold hsame), fun _ => rfl,
        fun h => absurd h Bool.false_ne_true, ⟨old, hold, iff_of_true hsame hreturn⟩,
        false, d', h.writeAt_same hold hsame, iff_of_false Bool.false_ne_true hreturn⟩
    · have hput := h.put (d.clock + 1) (d.clock + 1) s
      have hfind : ({ d with clock := d.clock + 1 }.put place (.file (d.clock + 1) s)).files.find?
          place = some (.file (d.clock + 1) s) := by
        rw [find?_put, if_pos rfl]
      have hread : ({ d with clock := d.clock + 1 }.put place (.file (d.clock + 1) s)).readAt a =
          .ok s := by
        rw [hput.readAt, entryOn, hfind]
        rfl
      refine ⟨iff_of_true rfl hdiffers, fun h => absurd h.symm Bool.false_ne_true,
        fun _ => ⟨s, rfl, hfind, hread⟩, ⟨s, hread, Text.ofFile_eq_self_iff s⟩, ?_⟩
      by_cases hreturn : CodePoint.character '\r' ∈ (s : Text).codes
      · have hagain : Disk.Differs _ a s :=
          .inr ⟨s, hread, fun hsame => (Text.ofFile_eq_self_iff s).1 hsame hreturn⟩
        rw [hput.writeAt_differs hagain, Text.string?_ofString]
        exact ⟨true, _, rfl, iff_of_true rfl hreturn⟩
      · exact ⟨false, _, hput.writeAt_same hread ((Text.ofFile_eq_self_iff s).2 hreturn),
          iff_of_false Bool.false_ne_true hreturn⟩

/-- An empty directory. -/
def exampleDisk : Disk := .empty ["w"] 7 0

theorem opens_exampleDisk : exampleDisk.Opens (.written "f") ["w", "f"] :=
  ⟨rfl, by rw [FileTree.isDirectory_iff]; decide⟩

theorem line_written_once : ∃ d', exampleDisk.writeAt "a\n" (.written "f") = (.ok true, d') ∧
    d'.files.find? ["w", "f"] = some (.file 8 "a\n") ∧
    ∃ d'', d'.writeAt "a\n" (.written "f") = (.ok false, d'') := by
  obtain ⟨hreturns, hlaw⟩ := writeAt_exact opens_exampleDisk "a\n"
  obtain ⟨b, d', hcall⟩ := hreturns (by decide)
  obtain ⟨hdiffers, -, htrue, -, again, d'', hagain, hreturn⟩ := hlaw b d' hcall
  obtain rfl : b = true := hdiffers.2 (.inl rfl)
  obtain ⟨s, hs, hfind, -⟩ := htrue rfl
  obtain rfl := Text.ofString_injective hs
  have hfalse : again = false := by
    rw [← Bool.not_eq_true, hreturn]
    decide
  exact ⟨d', hcall, hfind, d'', hfalse ▸ hagain⟩

/-- The same text is written again, by every call. -/
theorem return_written_again : ∃ d', exampleDisk.writeAt "a\r\n" (.written "f") = (.ok true, d') ∧
    d'.readAt (.written "f") = .ok "a\r\n" ∧
    ∃ d'', d'.writeAt "a\r\n" (.written "f") = (.ok true, d'') :=
  ⟨_, rfl, rfl, _, rfl⟩

end Disk
end DualImage
