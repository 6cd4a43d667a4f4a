import DualImage.Proofs.ObjectName
import DualImage.Proofs.Workspace.Action
import DualImage.Target.Reader

/-! Objects of the packages of a target. Their names come from the entries of the target's file alone,
whatever directory the entries are seen from. -/
namespace DualImage

/-- The directory from which a path is what it is. -/
def Path.dot : Path := ⟨.relative, []⟩

@[simp] theorem Path.dot_join (p : Path) : dot.join p = p := by
  obtain ⟨anchor, parts⟩ := p
  cases anchor <;> rfl

/-- Relative, and with a last component. -/
structure Path.IsEntry (p : Path) : Prop where
  relative : p.anchor = .relative
  named : p.parts ≠ []

section
variable {base p q objectDir : Path} {entries dirs : List Path}

theorem Path.join_of_relative (base : Path) (hp : p.anchor = .relative) :
    base.join p = ⟨base.anchor, base.parts ++ p.parts⟩ := by
  obtain ⟨anchor, parts⟩ := p
  obtain rfl : anchor = .relative := hp
  rfl

theorem Path.IsEntry.parent_join (hp : p.IsEntry) (base : Path) :
    (base.join p).parent = base.join p.parent := by
  rw [join_of_relative base hp.relative, join_of_relative base (p := p.parent) hp.relative]
  exact congrArg (Path.mk base.anchor) (List.dropLast_append_of_ne_nil hp.named)

theorem Path.relativeTo?_join (base : Path) (hp : p.anchor = .relative) (hq : q.anchor = .relative) :
    (base.join p).relativeTo? (base.join q) = p.relativeTo? q := by
  have hprefix : (base.parts ++ q.parts).isPrefixOf (base.parts ++ p.parts) =
      q.parts.isPrefixOf p.parts := by
    rw [Bool.eq_iff_iff, List.isPrefixOf_iff_prefix, List.isPrefixOf_iff_prefix,
      List.prefix_append_right_inj]
  rw [join_of_relative base hp, join_of_relative base hq, relativeTo?, relativeTo?, hprefix, hp, hq]
  simp only [true_and, List.length_append, List.drop_length_add_append]

/-! Directories that share a beginning. -/

private theorem commonStart_append (front as bs : List Text) :
    commonStart (front ++ as) (front ++ bs) = front ++ commonStart as bs := by
  induction front with
  | nil => rfl
  | cons a front ih => rw [List.cons_append, List.cons_append, commonStart, if_pos rfl, ih]; rfl

private theorem commonStart_prefix (as bs : List Text) :
    commonStart as bs <+: as ∧ commonStart as bs <+: bs := by
  fun_induction commonStart as bs with
  | case1 as b bs ih =>
    exact ⟨(List.prefix_cons_inj b).2 ih.1, (List.prefix_cons_inj b).2 ih.2⟩
  | case2 => exact ⟨List.nil_prefix, List.nil_prefix⟩
  | case3 => exact ⟨List.nil_prefix, List.nil_prefix⟩

private theorem sharedStart_append (front start : List Text) (dirs : List Path) :
    dirs.foldl (fun shared d => commonStart shared (front ++ d.parts)) (front ++ start) =
      front ++ dirs.foldl (fun shared d => commonStart shared d.parts) start := by
  induction dirs generalizing start with
  | nil => rfl
  | cons d dirs ih => rw [List.foldl_cons, List.foldl_cons, commonStart_append, ih]

private theorem sharedStart_below (start : List Text) (dirs : List Path) :
    dirs.foldl (fun shared d => commonStart shared d.parts) start <+: start ∧
      ∀ d ∈ dirs, dirs.foldl (fun shared d => commonStart shared d.parts) start <+: d.parts := by
  induction dirs generalizing start with
  | nil => exact ⟨List.prefix_refl _, List.forall_mem_nil _⟩
  | cons d dirs ih =>
    obtain ⟨hstart, hdirs⟩ := ih (commonStart start d.parts)
    obtain ⟨hleft, hright⟩ := commonStart_prefix start d.parts
    exact ⟨hstart.trans hleft, List.forall_mem_cons.2 ⟨hstart.trans hright, hdirs⟩⟩

/-- Either all of the directories are absolute, or none is. -/
private theorem commonDirectory?_cons {dir : Path} (h : ∀ d ∈ dirs, d.isAbsolute = dir.isAbsolute) :
    commonDirectory? (dir :: dirs) = some ⟨if dir.isAbsolute then .root else .relative,
      dirs.foldl (fun shared d => commonStart shared d.parts) dir.parts⟩ :=
  if_pos (List.all_eq_true.2 fun d hd => beq_iff_eq.2 (h d hd))

private theorem isAbsolute_eq_false (hp : p.anchor = .relative) : p.isAbsolute = false := by
  rw [Path.isAbsolute, hp]
  rfl

/-- Relative directories share a relative one that all of them lie below. -/
private theorem exists_commonDirectory (hne : dirs ≠ [])
    (hrelative : ∀ d ∈ dirs, d.anchor = .relative) :
    ∃ common : Path, commonDirectory? dirs = some common ∧ common.anchor = .relative ∧
      ∀ d ∈ dirs, common.parts <+: d.parts := by
  obtain ⟨dir, dirs, rfl⟩ := List.exists_cons_of_ne_nil hne
  obtain ⟨hdir, hdirs⟩ := List.forall_mem_cons.1 hrelative
  have hsame : ∀ d ∈ dirs, d.isAbsolute = dir.isAbsolute := fun d hd =>
    (isAbsolute_eq_false (hdirs d hd)).trans (isAbsolute_eq_false hdir).symm
  refine ⟨_, commonDirectory?_cons hsame, ?_,
    List.forall_mem_cons.2 (sharedStart_below dir.parts dirs)⟩
  rw [isAbsolute_eq_false hdir]
  rfl

/-- A base with two slashes at its start is none of which the common directory is below. -/
private theorem commonDirectory?_join (hbase : base.anchor ≠ .doubleRoot)
    (hrelative : ∀ d ∈ dirs, d.anchor = .relative) :
    commonDirectory? (dirs.map base.join) = (commonDirectory? dirs).map base.join := by
  have hanchor : (if base.isAbsolute then Anchor.root else .relative) = base.anchor := by
    unfold Path.isAbsolute
    cases h : base.anchor with
    | relative => rfl
    | root => rfl
    | doubleRoot => exact absurd h hbase
  cases dirs with
  | nil => rfl
  | cons dir dirs =>
    obtain ⟨hdir, hdirs⟩ := List.forall_mem_cons.1 hrelative
    have hsame : ∀ d ∈ dirs, d.isAbsolute = dir.isAbsolute := fun d hd =>
      (isAbsolute_eq_false (hdirs d hd)).trans (isAbsolute_eq_false hdir).symm
    have hjoin : dirs.map base.join = dirs.map fun d => ⟨base.anchor, base.parts ++ d.parts⟩ :=
      List.map_congr_left fun d hd => Path.join_of_relative base (hdirs d hd)
    rw [List.map_cons, Path.join_of_relative base hdir, hjoin, commonDirectory?_cons hsame,
      isAbsolute_eq_false hdir, commonDirectory?_cons (by simp [Path.isAbsolute]), List.foldl_map,
      sharedStart_append]
    exact congrArg (fun anchor => some (Path.mk anchor _)) hanchor

/-! One object for each source. -/

/-- The object of a source below the common directory. -/
private def objectOf? (common objectDir source : Path) : Option Path := do
  let name ← objectName? (← source.relativeTo? common)
  return objectDir.child name

private theorem objectPaths?_eq {sources : List Path} {common : Path} (hne : sources ≠ [])
    (hcommon : commonDirectory? (sources.map Path.parent) = some common) :
    objectPaths? sources objectDir = sources.mapM (objectOf? common objectDir) := by
  rw [objectPaths?, if_neg (by simpa using hne), hcommon]
  rfl

private theorem mapM_map_congr {α β γ : Type} {f : α → β} {k : β → Option γ} {k' : α → Option γ}
    {xs : List α} (h : ∀ x ∈ xs, k (f x) = k' x) : (xs.map f).mapM k = xs.mapM k' := by
  induction xs with
  | nil => rfl
  | cons x xs ih =>
    obtain ⟨hx, hxs⟩ := List.forall_mem_cons.1 h
    rw [List.map_cons, List.mapM_cons, List.mapM_cons, hx, ih hxs]

private theorem exists_mapM {α β : Type} {k : α → Option β} {xs : List α}
    (h : ∀ x ∈ xs, ∃ y, k x = some y) : ∃ ys, xs.mapM k = some ys := by
  induction xs with
  | nil => exact ⟨[], rfl⟩
  | cons x xs ih =>
    obtain ⟨⟨y, hy⟩, hxs⟩ := List.forall_mem_cons.1 h
    obtain ⟨ys, hys⟩ := ih hxs
    exact ⟨y :: ys, by rw [List.mapM_cons, hy, hys]; rfl⟩

private theorem relative_of_mem_parents (hentries : ∀ e ∈ entries, e.IsEntry) :
    ∀ d ∈ entries.map Path.parent, d.anchor = .relative := by
  intro d hd
  obtain ⟨e, he, rfl⟩ := List.mem_map.1 hd
  exact (hentries e he).relative

/-- Entries have the same objects when they are seen from another directory. -/
theorem objectPaths?_join (hbase : base.anchor ≠ .doubleRoot) (hentries : ∀ e ∈ entries, e.IsEntry)
    (objectDir : Path) :
    objectPaths? (entries.map base.join) objectDir = objectPaths? entries objectDir := by
  by_cases hne : entries = []
  · rw [hne]
    rfl
  · have hrelative := relative_of_mem_parents hentries
    obtain ⟨common, hcommon, hrel, -⟩ := exists_commonDirectory (by simpa using hne) hrelative
    have hparents : (entries.map base.join).map Path.parent =
        (entries.map Path.parent).map base.join := by
      rw [List.map_map, List.map_map]
      exact List.map_congr_left fun e he => (hentries e he).parent_join base
    have hjoined : commonDirectory? ((entries.map base.join).map Path.parent) =
        some (base.join common) := by
      rw [hparents, commonDirectory?_join hbase hrelative, hcommon]
      rfl
    rw [objectPaths?_eq (by simpa using hne) hjoined, objectPaths?_eq hne hcommon]
    refine mapM_map_congr fun e he => ?_
    rw [objectOf?, objectOf?, Path.relativeTo?_join base (hentries e he).relative hrel]

private theorem exists_objectPaths (hentries : ∀ e ∈ entries, e.IsEntry) (objectDir : Path) :
    ∃ objects, objectPaths? entries objectDir = some objects := by
  by_cases hne : entries = []
  · rw [hne]
    exact ⟨[], rfl⟩
  · obtain ⟨common, hcommon, hrel, habove⟩ :=
      exists_commonDirectory (by simpa using hne) (relative_of_mem_parents hentries)
    rw [objectPaths?_eq hne hcommon]
    refine exists_mapM fun e he => ?_
    obtain ⟨hrelative, hnamed⟩ := hentries e he
    -- the last component is not part of the common directory
    obtain ⟨between, hbetween⟩ := habove e.parent (List.mem_map_of_mem he)
    obtain ⟨last, hparts⟩ : ∃ last, e.parts = common.parts ++ (between ++ [last]) := by
      refine ⟨e.parts.getLast hnamed, ?_⟩
      rw [← List.append_assoc, hbetween]
      exact (List.dropLast_append_getLast hnamed).symm
    have hprefix : common.parts.isPrefixOf e.parts = true :=
      List.isPrefixOf_iff_prefix.2 ⟨_, hparts.symm⟩
    have hbelow : e.relativeTo? common = some (between ++ [last]) := by
      rw [Path.relativeTo?, if_pos ⟨hrelative.trans hrel.symm, hprefix⟩, hparts, List.drop_left]
    rw [objectOf?, hbelow]
    simp [objectName?]

/-- Each entry has an object, with the same name in every directory for objects. -/
theorem exists_nameOf (hentries : ∀ e ∈ entries, e.IsEntry) : ∃ nameOf : Path → Text,
    (∀ e ∈ entries, (below? entries e).bind objectName? = some (nameOf e)) ∧
    ∀ dir, objectPaths? entries dir = some (entries.map fun e => dir.child (nameOf e)) := by
  obtain ⟨objects, hobjects⟩ := exists_objectPaths hentries .dot
  obtain ⟨nameOf, -, hnames⟩ := exists_names_of_objectPaths hobjects
  have hnameOf : ∀ e ∈ entries, (below? entries e).bind objectName? = some (nameOf e) := by
    intro e he
    obtain ⟨parts, hbelow, hname⟩ := hnames e he
    rw [hbelow]
    exact hname
  refine ⟨nameOf, hnameOf, fun dir => ?_⟩
  obtain ⟨objects', hobjects'⟩ := exists_objectPaths hentries dir
  obtain ⟨nameOf', rfl, hnames'⟩ := exists_names_of_objectPaths hobjects'
  rw [hobjects']
  refine congrArg some (List.map_congr_left fun e he => ?_)
  obtain ⟨parts, hbelow, hname⟩ := hnames' e he
  have hsame := hnameOf e he
  rw [hbelow] at hsame
  exact congrArg dir.child (Option.some.inj (hname.symm.trans hsame))

/-- An entry that was read is named by one component. -/
theorem isPart_nameOf (hplain : ∀ e ∈ entries, e.Plain) {name : Text} (hp : p ∈ entries)
    (h : (below? entries p).bind objectName? = some name) : Path.IsPart name ∧ name ≠ ".." := by
  obtain ⟨parts, hbelow, hname⟩ := Option.bind_eq_some_iff.1 h
  have hparts : ∀ part ∈ parts, Path.IsPart part :=
    fun part hpart => hplain p hp part (subset_of_below? hbelow hpart)
  obtain ⟨stem, hpart, hdots, rfl⟩ := isPart_objectName hparts hname
  exact ⟨hpart, hdots⟩

end

/-! Reading the same contents from another directory. -/

private theorem mapM_eq_map {α β : Type} {k k' : α → Except Failure β} {g : β → β}
    (h : ∀ x, k x = g <$> k' x) (xs : List α) : xs.mapM k = List.map g <$> xs.mapM k' := by
  induction xs with
  | nil => rfl
  | cons x xs ih =>
    rw [List.mapM_cons, List.mapM_cons, ih, h]
    cases k' x with
    | error f => rfl
    | ok y => cases xs.mapM k' <;> rfl

namespace Document
variable (base : Path) (d : Document)

theorem pathBelow_eq : d.pathBelow base = base.join <$> d.pathBelow .dot := by
  unfold pathBelow
  cases d.asText with
  | error f => rfl
  | ok t => exact congrArg Except.ok (congrArg base.join (Path.dot_join _)).symm

theorem pathsBelow_eq : d.pathsBelow base = List.map base.join <$> d.pathsBelow .dot := by
  unfold pathsBelow
  cases d.items with
  | error f => rfl
  | ok items => exact mapM_eq_map (pathBelow_eq base) items

theorem pathBelow?_eq : d.pathBelow? base = Option.map base.join <$> d.pathBelow? .dot := by
  unfold pathBelow?
  split
  · rw [pathBelow_eq]
    cases d.pathBelow .dot <;> rfl
  · rfl

end Document

/-- The package with its paths seen from a directory. -/
def Package.seenFrom (base : Path) (p : Package) : Package :=
  { p with sources := p.sources.map base.join, includeDirs := p.includeDirs.map base.join }

def Board.seenFrom (base : Path) (b : Board) : Board :=
  { b with
    package := b.package.seenFrom base
    linkerScript := b.linkerScript.map base.join
    secondScript := b.secondScript.map base.join }

def Part.seenFrom (base : Path) (part : Part) : Part :=
  { part with packages := part.packages.map (·.seenFrom base) }

theorem Package.ofDocument_eq (base : Path) (d : Document) :
    Package.ofDocument base d = Package.seenFrom base <$> Package.ofDocument .dot d := by
  simp only [Package.ofDocument, Document.pathsBelow_eq base, map_bind, bind_map_left]
  refine congrArg _ (funext fun mentioned => ?_)
  split
  · simp only [map_bind]
    rfl
  · simp only [map_bind]
    rfl

theorem Board.ofDocument?_eq (base : Path) (d : Document) :
    Board.ofDocument? base d = Option.map (Board.seenFrom base) <$> Board.ofDocument? .dot d := by
  simp only [Board.ofDocument?, Package.ofDocument_eq base, Document.pathBelow?_eq base,
    bind_map_left]
  split
  · rfl
  · simp only [map_bind]
    rfl

theorem Part.ofDocument?_eq (base : Path) (role : String) (d : Document) :
    Part.ofDocument? base role d =
      Option.map (Part.seenFrom base) <$> Part.ofDocument? .dot role d := by
  simp only [Part.ofDocument?, mapM_eq_map (Package.ofDocument_eq base), bind_map_left]
  split
  · rfl
  · simp only [map_bind]
    refine congrArg _ (funext fun mentioned => ?_)
    split
    · rfl
    · simp only [map_bind]
      rfl

namespace Target

/-- All packages that are compiled for the target. The one of the board is compiled for both
parts. -/
def packages (t : Target) : List Package :=
  (t.board.map (·.package)).toList ++ (t.application.map (·.packages)).getD [] ++
    (t.loader.map (·.packages)).getD []

def seenFrom (base : Path) (t : Target) : Target :=
  { t with
    board := t.board.map (·.seenFrom base)
    application := t.application.map (·.seenFrom base)
    loader := t.loader.map (·.seenFrom base) }

theorem packages_seenFrom (base : Path) (t : Target) :
    (t.seenFrom base).packages = t.packages.map (·.seenFrom base) := by
  obtain ⟨name, buildDir, compiler, board, application, loader, features⟩ := t
  cases board <;> cases application <;> cases loader <;>
    simp [packages, seenFrom, Board.seenFrom, Part.seenFrom]

/-- Only the build directory comes from elsewhere. -/
theorem eq_seenFrom_of_ofDocument {base : Path} {buildDir : Option Path}
    {environment : Option String} {d : Document} {t : Target}
    (h : ofDocument base buildDir environment d = .ok t) :
    ∃ s, ofDocument .dot (some .dot) none d = .ok s ∧
      t = { s.seenFrom base with buildDir := t.buildDir } := by
  simp only [ofDocument, Board.ofDocument?_eq base, Part.ofDocument?_eq base, bind_map_left] at h
  split at h
  · next entries hview =>
    split at h
    · next name hname =>
      obtain ⟨compiler, hcompiler, h⟩ := Except.bind_eq_ok_iff.1 h
      obtain ⟨board, hboard, h⟩ := Except.bind_eq_ok_iff.1 h
      obtain ⟨dir, h⟩ : ∃ dir, (do
          let application ← Part.ofDocument? .dot "app" (Document.field entries "app")
          let loader ← Part.ofDocument? .dot "loader" (Document.field entries "loader")
          let features ← (Document.field entries "features").items
          return Target.mk name dir compiler (board.map (Board.seenFrom base))
            (application.map (Part.seenFrom base)) (loader.map (Part.seenFrom base)) features) =
            Except.ok t := by
        split at h
        · exact ⟨_, h⟩
        · obtain ⟨dir, -, h⟩ := Except.bind_eq_ok_iff.1 h
          exact ⟨dir, h⟩
      obtain ⟨application, happlication, h⟩ := Except.bind_eq_ok_iff.1 h
      obtain ⟨loader, hloader, h⟩ := Except.bind_eq_ok_iff.1 h
      obtain ⟨features, hfeatures, h⟩ := Except.bind_eq_ok_iff.1 h
      cases h
      refine ⟨⟨name, .dot, compiler, board, application, loader, features⟩, ?_, rfl⟩
      simp only [ofDocument, hview, hname, hcompiler, hboard, happlication, hloader, hfeatures]
      rfl
    · cases h
  · cases h

end Target

/-- Entries that are relative and have a last component have an object each, a direct child of the
directory for objects. Its name does not change with the directory that the entries are seen from,
so that targets that are read from the same contents have the same objects. -/
theorem objects_from_any_base :
    (∀ entries : List Text, (∀ e ∈ entries, (Path.ofText e).IsEntry) →
      ∃ nameOf : Text → Text, (∀ e ∈ entries, Path.IsPart (nameOf e) ∧ nameOf e ≠ "..") ∧
        ∀ dir : Path, (∀ e ∈ entries, (dir.child (nameOf e)).parent = dir) ∧
          objectPaths? (entries.map Path.ofText) dir =
            some (entries.map fun e => dir.child (nameOf e)) ∧
          ∀ base : Path, base.anchor ≠ .doubleRoot → objectPaths? (entries.map base.child) dir =
            some (entries.map fun e => dir.child (nameOf e))) ∧
    ∀ (data : Document) (base base' : Path) (buildDir buildDir' : Option Path)
      (environment environment' : Option String) (t t' : Target),
      base.anchor ≠ .doubleRoot → base'.anchor ≠ .doubleRoot →
      Target.ofDocument base buildDir environment data = .ok t →
      Target.ofDocument base' buildDir' environment' data = .ok t' →
      ∃ s, Target.ofDocument .dot (some .dot) none data = .ok s ∧
        t.packages = s.packages.map (·.seenFrom base) ∧
        t'.packages = s.packages.map (·.seenFrom base') ∧
        ∀ p ∈ s.packages, (∀ e ∈ p.sources, e.IsEntry) → ∃ nameOf : Path → Text, ∀ dir : Path,
          objectPaths? (p.seenFrom base).sources dir =
            some (p.sources.map fun e => dir.child (nameOf e)) ∧
          objectPaths? (p.seenFrom base').sources dir =
            some (p.sources.map fun e => dir.child (nameOf e)) := by
  constructor
  · intro entries hentries
    have hall : ∀ p ∈ entries.map Path.ofText, p.IsEntry := List.forall_mem_map.2 hentries
    obtain ⟨nameOf, hnameOf, hobjects⟩ := exists_nameOf hall
    have hpart : ∀ e ∈ entries, Path.IsPart (nameOf (.ofText e)) ∧ nameOf (.ofText e) ≠ ".." :=
      fun e he => isPart_nameOf (List.forall_mem_map.2 fun e _ => Path.plain_ofText e)
        (List.mem_map_of_mem he) (hnameOf _ (List.mem_map_of_mem he))
    refine ⟨fun e => nameOf (.ofText e), hpart, fun dir => ⟨fun e he => ?_, ?_, fun base hbase => ?_⟩⟩
    · rw [Path.child_of_isPart (hpart e he).1, Path.parent, List.dropLast_concat]
    · rw [hobjects, List.map_map]
      rfl
    · have hseen : entries.map base.child = (entries.map Path.ofText).map base.join :=
        List.map_map.symm
      rw [hseen, objectPaths?_join hbase hall, hobjects, List.map_map]
      rfl
  · intro data base base' buildDir buildDir' environment environment' t t' hbase hbase' ht ht'
    obtain ⟨s, hs, heq⟩ := Target.eq_seenFrom_of_ofDocument ht
    obtain ⟨s', hs', heq'⟩ := Target.eq_seenFrom_of_ofDocument ht'
    obtain rfl : s = s' := Except.ok.inj (hs.symm.trans hs')
    refine ⟨s, hs, ?_, ?_, fun p hp hentries => ?_⟩
    · rw [heq]
      exact Target.packages_seenFrom base s
    · rw [heq']
      exact Target.packages_seenFrom base' s
    · obtain ⟨nameOf, -, hobjects⟩ := exists_nameOf hentries
      exact ⟨nameOf, fun dir => ⟨(objectPaths?_join hbase hentries dir).trans (hobjects dir),
        (objectPaths?_join hbase' hentries dir).trans (hobjects dir)⟩⟩

/-- One package with a source above the directory of the target and one below. -/
def exampleContents : Document :=
  ⟨#[.mapping [(.text "name", .text "t"), (.text "app", .collection 1)],
    .mapping [(.text "name", .text "a"), (.text "packages", .collection 2)],
    .list [.collection 3],
    .mapping [(.text "name", .text "p"), (.text "sources", .collection 4)],
    .list [.text "../a.c", .text "b/c.c"]], .collection 0⟩

def exampleEntries : List Path := [.ofText "../a.c", .ofText "b/c.c"]

private theorem isEntry_example : ∀ e ∈ exampleEntries, e.IsEntry :=
  List.forall_mem_cons.2 ⟨⟨by decide, by decide⟩,
    List.forall_mem_singleton.2 ⟨by decide, by decide⟩⟩

theorem objects_of_exampleContents :
    (∃ nameOf : Text → Text, ∀ dir : Path,
      objectPaths? (["../a.c", "b/c.c"].map (Path.ofText "/w").child) dir =
        some [dir.child (nameOf "../a.c"), dir.child (nameOf "b/c.c")]) ∧
    ∃ (t t' : Target) (p : Package), p.sources = exampleEntries ∧
      Target.ofDocument (.ofText "/w") none none exampleContents = .ok t ∧
      Target.ofDocument (.ofText "v") none (some "out") exampleContents = .ok t' ∧
      t.packages = [p.seenFrom (.ofText "/w")] ∧ t'.packages = [p.seenFrom (.ofText "v")] ∧
      ∃ nameOf : Path → Text, ∀ dir : Path,
        objectPaths? (p.seenFrom (.ofText "/w")).sources dir =
          some (p.sources.map fun e => dir.child (nameOf e)) ∧
        objectPaths? (p.seenFrom (.ofText "v")).sources dir =
          some (p.sources.map fun e => dir.child (nameOf e)) := by
  constructor
  · obtain ⟨nameOf, -, hobjects⟩ := objects_from_any_base.1 ["../a.c", "b/c.c"]
      (List.forall_mem_map.1 isEntry_example)
    exact ⟨nameOf, fun dir => (hobjects dir).2.2 (.ofText "/w") (by decide)⟩
  · obtain ⟨s, hs, ht, ht', hnames⟩ := objects_from_any_base.2 exampleContents (.ofText "/w")
      (.ofText "v") none none none (some "out") _ _ (by decide) (by decide) rfl rfl
    cases hs
    exact ⟨_, _, _, rfl, rfl, rfl, ht, ht', hnames _ (List.mem_singleton_self _) isEntry_example⟩

end DualImage
