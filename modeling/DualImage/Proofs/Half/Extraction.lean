import DualImage.Proofs.SymbolTable.Linking
import DualImage.Proofs.Workspace.Command

/-! The symbols of a half: the tables of its archives, folded in the order of the packages. -/
namespace DualImage

namespace World
open SymbolTable (linkFrom linkFrom_resolved Resolved arrivals Rivalry FirstClash)

/-- Tables folded one after another into an empty one, with the remarks of every merge. -/
def linkAll (tables : List SymbolTable) : Action SymbolTable :=
  tables.foldlM (fun symbols table => settle (symbols.merge table)) ∅

theorem answers_settle (m : SymbolTable.Merge) (w : World) :
    Answers Spoken (settle m) m.outcome w := by
  have h := Answers.settle m (w := w)
  unfold SymbolTable.Merge.outcome
  exact h

private theorem answers_linkFrom (t : SymbolTable) (tables : List SymbolTable) (w : World) :
    Answers Spoken (tables.foldlM (fun symbols table => settle (symbols.merge table)) t)
      (linkFrom t tables) w := by
  induction tables generalizing t w with
  | nil => exact .pure t
  | cons table rest ih =>
    rw [List.foldlM_cons, linkFrom]
    have hs := answers_settle (t.merge table) w
    cases hm : (t.merge table).outcome with
    | error f =>
      rw [hm] at hs
      exact hs.failing
    | ok t' =>
      rw [hm] at hs
      exact hs.andThen fun w' _ => ih t' w'

theorem answers_linkAll (tables : List SymbolTable) (w : World) :
    Answers Spoken (linkAll tables) (linkFrom ∅ tables) w :=
  answers_linkFrom ∅ tables w

/-- Folding tables resolves every name as a linker does. It fails exactly when two tables hold
strong symbols of one name, and then on the first strong symbol that meets one of an earlier table.
Otherwise it keeps the names in the order of their first appearance, and of every name the earliest
of the strongest symbols. -/
theorem linkAll_outcome (tables : List SymbolTable) (w : World) :
    match linkAll tables w with
    | .error failure w' =>
      Rivalry tables ∧
      (∃ old s, FirstClash tables old s ∧ failure = .clash s.name old.package s.package) ∧
      Spoken w w'
    | .ok t w' =>
      ¬ Rivalry tables ∧
      t.names = (tables.flatMap (·.names)).eraseDups ∧
      (∀ s ∈ t.symbols, s.Prevails (arrivals tables)) ∧
      Spoken w w' := by
  obtain ⟨w', hw, h⟩ := answers_linkAll tables w
  have hresolved := linkFrom_resolved (t := ∅) (show Resolved (arrivals []) ∅ from .empty) tables
  rw [h]
  cases hlink : linkFrom ∅ tables with
  | error failure =>
    rw [hlink] at hresolved
    obtain ⟨old, s, hclash, rfl⟩ := hresolved
    exact ⟨hclash.rivalry, ⟨old, s, hclash, rfl⟩, hw⟩
  | ok t =>
    rw [hlink] at hresolved
    exact ⟨hresolved.not_rivalry, hresolved.names_eq, hresolved.prevails, hw⟩

end World

namespace Half
open World (Quiet)
open SymbolTable (linkFrom linkFrom_resolved Resolved arrivals Rivalry FirstClash)
variable {h : Half}

/-- The recorded archive of a package, with the name that it is recorded under. -/
def entry? (h : Half) (package : Package) : Option (Text × Path) :=
  package.name.text?.bind fun name => (h.archives.lookup name).map (name, ·)

/-- The recorded archives with their packages, in the order of the packages. -/
def shelf (h : Half) : List (Text × Path) := h.packages.filterMap h.entry?

/-- The table of an archive, as the tools list it. -/
def tableOf (h : Half) (tools : Tools) (entry : Text × Path) : Except Failure SymbolTable :=
  tools.dump h.compiler entry.2 >>= (Listing.Origin.ofArchive entry.1).tableOf

/-- One package's symbols, when it has an archive, folded into those before. -/
def extractedPackage (h : Half) (tools : Tools) (symbols : SymbolTable) (package : Package) :
    Except Failure SymbolTable :=
  h.archive? package.name >>= fun
    | none => .ok symbols
    | some path => h.tableOf tools (package.name.text?.getD "", path) >>= fun listed =>
      (symbols.merge listed).outcome

/-- The symbols of a half are settled by its archives and by what the tools list of them. -/
def extracted (h : Half) (tools : Tools) : Except Failure SymbolTable :=
  h.packages.foldlM (h.extractedPackage tools) ∅

theorem answers_readArchive (h : Half) (entry : Text × Path) (w : World) :
    Answers (Quiet Command.Lists)
      (h.compiler.dumpSymbols entry.2 >>= World.readListing (.ofArchive entry.1))
      (h.tableOf w.tools entry) w :=
  (Answers.dumpSymbols h.compiler entry.2).bind fun _ _ _ =>
    (Answers.readListing _ _).mono fun _ => Spoken.quiet

/-- The table of the linked binary, as the tools list it. -/
def linkedTable (h : Half) (tools : Tools) : Except Failure SymbolTable :=
  tools.dump h.compiler h.binary >>= Listing.Origin.ofBinary.tableOf

theorem answers_readBinary (h : Half) (w : World) :
    Answers (Quiet Command.Lists) (h.readBinary h.binary) (h.linkedTable w.tools) w :=
  (Answers.dumpSymbols h.compiler h.binary).bind fun _ _ _ =>
    (Answers.readListing _ _).mono fun _ => Spoken.quiet

private theorem answers_extractPackage (symbols : SymbolTable) (package : Package) (w : World) :
    Answers (Quiet Command.Lists) (h.extractPackage symbols package)
      (h.extractedPackage w.tools symbols package) w := by
  refine (Answers.lift _).bind fun path? w₁ h₁ => ?_
  cases path? with
  | none => exact .pure _
  | some path =>
    have hread := h.answers_readArchive (package.name.text?.getD "", path) w₁
    rw [h₁.unmoved.tools] at hread
    have hsettle := hread.bind (f := fun listed => World.settle (symbols.merge listed))
      fun listed w₂ _ => (World.answers_settle _ w₂).mono fun _ => Spoken.quiet
    rw [bind_assoc] at hsettle
    exact hsettle

theorem answers_extractSymbols (h : Half) (w : World) :
    Answers (Quiet Command.Lists) h.extractSymbols (h.extracted w.tools) w := by
  unfold extractSymbols extracted
  generalize (∅ : SymbolTable) = symbols
  induction h.packages generalizing symbols w with
  | nil => exact .pure _
  | cons package rest ih =>
    rw [List.foldlM_cons, List.foldlM_cons]
    refine (answers_extractPackage symbols package w).bind fun symbols' w' hw' => ?_
    rw [← hw'.unmoved.tools]
    exact ih w' symbols'

section
variable {tools : Tools} {symbols t : SymbolTable} {package : Package}

private theorem extractedPackage_of_entry (hkey : package.name.canBeKey = true) :
    h.extractedPackage tools symbols package =
      match h.entry? package with
      | none => .ok symbols
      | some entry => h.tableOf tools entry >>= fun listed => (symbols.merge listed).outcome := by
  unfold extractedPackage archive? entry?
  rw [if_pos hkey]
  cases package.name.text? with
  | none => rfl
  | some name =>
    simp only [Option.bind_some, Option.getD_some]
    cases h.archives.lookup name <;> rfl

private theorem canBeKey_of_extractedPackage (hp : h.extractedPackage tools symbols package = .ok t) :
    package.name.canBeKey = true := by
  by_contra hkey
  rw [extractedPackage, archive?, if_neg hkey] at hp
  cases hp

private theorem foldlM_extractedPackage_eq_ok_iff (packages : List Package) :
    packages.foldlM (h.extractedPackage tools) symbols = .ok t ↔
      (∀ p ∈ packages, p.name.canBeKey = true) ∧ ∃ tables,
        (packages.filterMap h.entry?).mapM (h.tableOf tools) = .ok tables ∧
          SymbolTable.linkFrom symbols tables = .ok t := by
  induction packages generalizing symbols with
  | nil => simp [SymbolTable.linkFrom, pure, Except.pure]
  | cons package rest ih =>
    rw [List.foldlM_cons, Except.bind_eq_ok_iff, List.forall_mem_cons]
    simp only [ih]
    constructor
    · rintro ⟨symbols', hp, hrest, tables, htables, hlink⟩
      have hkey := canBeKey_of_extractedPackage hp
      refine ⟨⟨hkey, hrest⟩, ?_⟩
      rw [extractedPackage_of_entry hkey] at hp
      cases he : h.entry? package with
      | none =>
        rw [he] at hp
        cases hp
        exact ⟨tables, by rw [List.filterMap_cons_none he]; exact htables, hlink⟩
      | some entry =>
        rw [he] at hp
        obtain ⟨listed, hlisted, hmerge⟩ := Except.bind_eq_ok_iff.1 hp
        refine ⟨listed :: tables, ?_, Except.bind_eq_ok_iff.2 ⟨symbols', hmerge, hlink⟩⟩
        rw [List.filterMap_cons_some he, List.mapM_cons, hlisted, htables]
        rfl
    · rintro ⟨⟨hkey, hrest⟩, tables, htables, hlink⟩
      rw [extractedPackage_of_entry hkey]
      cases he : h.entry? package with
      | none =>
        rw [List.filterMap_cons_none he] at htables
        exact ⟨symbols, rfl, hrest, tables, htables, hlink⟩
      | some entry =>
        rw [List.filterMap_cons_some he, List.mapM_cons, Except.bind_eq_ok_iff] at htables
        obtain ⟨listed, hlisted, htables⟩ := htables
        obtain ⟨tables', htables', hcons⟩ := Except.bind_eq_ok_iff.1 htables
        cases hcons
        obtain ⟨symbols', hmerge, hlink⟩ := Except.bind_eq_ok_iff.1 hlink
        exact ⟨symbols', Except.bind_eq_ok_iff.2 ⟨listed, hlisted, hmerge⟩, hrest, tables',
          htables', hlink⟩

/-- Extraction succeeds when the tables of all archives can be read and fold without a clash. -/
theorem extracted_eq_ok_iff :
    h.extracted tools = .ok t ↔
      (∀ p ∈ h.packages, p.name.canBeKey = true) ∧ ∃ tables,
        h.shelf.mapM (h.tableOf tools) = .ok tables ∧ SymbolTable.linkFrom ∅ tables = .ok t :=
  foldlM_extractedPackage_eq_ok_iff h.packages

/-- The extraction ends at this package, after the tables of those before it: its name cannot be looked up,
its archive cannot be listed, or the table of its archive clashes with an earlier one. -/
def StopsAt (h : Half) (tools : Tools) (tables : List SymbolTable) (package : Package)
    (failure : Failure) : Prop :=
  package.name.canBeKey = false ∧ failure = .wrongKind ∨
    ∃ entry, package.name.canBeKey = true ∧ h.entry? package = some entry ∧
      (h.tableOf tools entry = .error failure ∨
        ∃ table old s, h.tableOf tools entry = .ok table ∧
          SymbolTable.FirstClash (tables ++ [table]) old s ∧
          failure = .clash s.name old.package s.package)

/-- One package more: the extraction ends at it, or its table is resolved with those before. -/
private theorem extractedPackage_resolved (h : Half) (tools : Tools) {tables : List SymbolTable}
    (hs : Resolved (arrivals tables) symbols) (package : Package) :
    match h.extractedPackage tools symbols package with
    | .error failure => h.StopsAt tools tables package failure
    | .ok t => package.name.canBeKey = true ∧ ∃ new,
        (h.entry? package).toList.mapM (h.tableOf tools) = .ok new ∧
          Resolved (arrivals (tables ++ new)) t := by
  cases hkey : package.name.canBeKey with
  | false =>
    have hfails : h.extractedPackage tools symbols package = .error .wrongKind := by
      rw [extractedPackage, archive?, if_neg (by rw [hkey]; decide)]
      rfl
    rw [hfails]
    exact .inl ⟨hkey, rfl⟩
  | true =>
    rw [extractedPackage_of_entry hkey]
    cases hentry : h.entry? package with
    | none => exact ⟨rfl, [], rfl, by rwa [List.append_nil]⟩
    | some entry =>
      dsimp only
      cases hlisted : h.tableOf tools entry with
      | error failure => exact .inr ⟨entry, hkey, hentry, .inl hlisted⟩
      | ok table =>
        have hlink := linkFrom_resolved hs [table]
        have hone : linkFrom symbols [table] =
            (Except.ok table >>= fun listed => (symbols.merge listed).outcome) := bind_pure _
        rw [hone] at hlink
        cases hmerge : (Except.ok table >>= fun listed => (symbols.merge listed).outcome) with
        | error failure =>
          rw [hmerge] at hlink
          obtain ⟨old, s, hclash, hfailure⟩ := hlink
          exact .inr ⟨entry, hkey, hentry, .inr ⟨table, old, s, hlisted, hclash, hfailure⟩⟩
        | ok t =>
          rw [hmerge] at hlink
          refine ⟨rfl, [table], ?_, hlink⟩
          rw [Option.toList_some, List.mapM_cons, hlisted]
          rfl

private theorem mapM_tableOf_cons {new later : List SymbolTable} {rest : List Package}
    (hnew : (h.entry? package).toList.mapM (h.tableOf tools) = .ok new)
    (hlater : (rest.filterMap h.entry?).mapM (h.tableOf tools) = .ok later) :
    ((package :: rest).filterMap h.entry?).mapM (h.tableOf tools) = .ok (new ++ later) := by
  have hentries : (package :: rest).filterMap h.entry? =
      (h.entry? package).toList ++ rest.filterMap h.entry? := by
    cases hentry : h.entry? package with
    | none => exact List.filterMap_cons_none hentry
    | some entry => exact List.filterMap_cons_some hentry
  rw [hentries, List.mapM_append, hnew, hlater]
  rfl

/-- A run of packages: the extraction ends at one of them, or all their tables are resolved. -/
private theorem foldlM_extractedPackage_resolved (h : Half) (tools : Tools)
    {tables : List SymbolTable} (hs : Resolved (arrivals tables) symbols) (packages : List Package) :
    match packages.foldlM (h.extractedPackage tools) symbols with
    | .error failure => ∃ before package after new, packages = before ++ package :: after ∧
        (∀ p ∈ before, p.name.canBeKey = true) ∧
        (before.filterMap h.entry?).mapM (h.tableOf tools) = .ok new ∧
        ¬ Rivalry (tables ++ new) ∧ h.StopsAt tools (tables ++ new) package failure
    | .ok t => (∀ p ∈ packages, p.name.canBeKey = true) ∧ ∃ new,
        (packages.filterMap h.entry?).mapM (h.tableOf tools) = .ok new ∧
          Resolved (arrivals (tables ++ new)) t := by
  induction packages generalizing symbols tables with
  | nil => exact ⟨List.forall_mem_nil _, [], rfl, by rwa [List.append_nil]⟩
  | cons package rest ih =>
    rw [List.foldlM_cons]
    have hstep := extractedPackage_resolved h tools hs package
    cases hp : h.extractedPackage tools symbols package with
    | error failure =>
      rw [hp] at hstep
      refine ⟨[], package, rest, [], rfl, List.forall_mem_nil _, rfl, ?_, ?_⟩
      · rw [List.append_nil]
        exact hs.not_rivalry
      · rw [List.append_nil]
        exact hstep
    | ok symbols' =>
      rw [hp] at hstep
      obtain ⟨hkey, new, hnew, hresolved⟩ := hstep
      have hrest := ih hresolved
      change match rest.foldlM (h.extractedPackage tools) symbols' with | .error failure => _ | .ok t => _
      cases hfold : rest.foldlM (h.extractedPackage tools) symbols' with
      | error failure =>
        rw [hfold] at hrest
        obtain ⟨before, last, after, later, rfl, hkeys, hlater, hpeace, hstops⟩ := hrest
        rw [List.append_assoc] at hpeace hstops
        exact ⟨package :: before, last, after, new ++ later, rfl,
          List.forall_mem_cons.2 ⟨hkey, hkeys⟩, mapM_tableOf_cons hnew hlater, hpeace, hstops⟩
      | ok t =>
        rw [hfold] at hrest
        obtain ⟨hkeys, later, hlater, hresolved⟩ := hrest
        rw [List.append_assoc] at hresolved
        exact ⟨List.forall_mem_cons.2 ⟨hkey, hkeys⟩, new ++ later, mapM_tableOf_cons hnew hlater,
          hresolved⟩

/-- The extraction resolves the names of all archives as a linker does. It fails at the first package
whose name cannot be looked up, whose archive cannot be listed, or whose table clashes with the table of
an archive before it. Symbols are listed, and nothing else is done. -/
theorem extractSymbols_outcome (h : Half) (w : World) :
    match h.extractSymbols w with
    | .error failure w' => Quiet Command.Lists w w' ∧
        ∃ before package after tables, h.packages = before ++ package :: after ∧
          (∀ p ∈ before, p.name.canBeKey = true) ∧
          (before.filterMap h.entry?).mapM (h.tableOf w.tools) = .ok tables ∧
          ¬ Rivalry tables ∧ h.StopsAt w.tools tables package failure
    | .ok t w' => Quiet Command.Lists w w' ∧ (∀ p ∈ h.packages, p.name.canBeKey = true) ∧
        ∃ tables, h.shelf.mapM (h.tableOf w.tools) = .ok tables ∧ ¬ Rivalry tables ∧
          t.names = (tables.flatMap (·.names)).eraseDups ∧
          ∀ s ∈ t.symbols, s.Prevails (arrivals tables) := by
  obtain ⟨w', hquiet, hr⟩ := h.answers_extractSymbols w
  have hempty : Resolved (arrivals []) ∅ := .empty
  have hfold := foldlM_extractedPackage_resolved h w.tools hempty h.packages
  rw [hr]
  cases hx : h.extracted w.tools with
  | error failure =>
    rw [extracted] at hx
    rw [hx] at hfold
    exact ⟨hquiet, hfold⟩
  | ok t =>
    rw [extracted] at hx
    rw [hx] at hfold
    obtain ⟨hkeys, tables, htables, hresolved⟩ := hfold
    exact ⟨hquiet, hkeys, tables, htables, hresolved.not_rivalry, hresolved.names_eq,
      hresolved.prevails⟩

/-- A visible symbol of an archive has a visible one of its name among the symbols of the half, of
this archive or of another. -/
theorem exists_visible_of_extracted (hx : h.extracted tools = .ok t) {entry : Text × Path}
    {table : SymbolTable} (hentry : entry ∈ h.shelf) (htable : h.tableOf tools entry = .ok table)
    {s : Symbol} (hs : s ∈ table.symbols) (hvisible : s.isLocal = false) :
    ∃ kept ∈ t.symbols, kept.name = s.name ∧ kept.isLocal = false ∧
      ∃ origin ∈ h.shelf, ∃ listed, h.tableOf tools origin = .ok listed ∧ kept ∈ listed.symbols := by
  obtain ⟨-, tables, htables, hlink⟩ := extracted_eq_ok_iff.1 hx
  obtain ⟨hall, honly⟩ := Except.mem_of_mapM_eq_ok htables
  obtain ⟨table', hmem, htable'⟩ := hall entry hentry
  rw [htable] at htable'
  cases htable'
  have hempty : SymbolTable.Resolved (SymbolTable.arrivals []) ∅ := .empty
  have hresolved := SymbolTable.linkFrom_resolved hempty tables
  rw [hlink] at hresolved
  obtain ⟨kept, hkept, hname, hlocal, harrived⟩ :=
    hresolved.exists_visible (List.mem_flatMap.2 ⟨table, hmem, hs⟩) hvisible
  obtain ⟨listed, hlisted, hmem'⟩ := List.mem_flatMap.1 harrived
  obtain ⟨origin, horigin, heq⟩ := honly listed hlisted
  exact ⟨kept, hkept, hname, hlocal, origin, horigin, listed, heq, hmem'⟩

end

section
variable {h' : Half} {tools tools' : Tools} {symbols symbols' : SymbolTable}

private theorem mapM_tableOf_congr {shelf : List (Text × Path)}
    (hdump : ∀ e ∈ shelf, tools.dump h.compiler e.2 = tools'.dump h.compiler e.2) :
    shelf.mapM (h.tableOf tools) = shelf.mapM (h.tableOf tools') := by
  induction shelf with
  | nil => rfl
  | cons e rest ih =>
    obtain ⟨hfirst, hrest⟩ := List.forall_mem_cons.1 hdump
    rw [List.mapM_cons, List.mapM_cons, ih hrest, tableOf, tableOf, hfirst]

/-- Archives that are listed as before have the symbols that they had. -/
theorem extracted_of_dumps
    (hdump : ∀ e ∈ h.shelf, tools.dump h.compiler e.2 = tools'.dump h.compiler e.2)
    (hx : h.extracted tools = .ok symbols) : h.extracted tools' = .ok symbols := by
  rw [extracted_eq_ok_iff] at hx ⊢
  rw [← mapM_tableOf_congr hdump]
  exact hx

/-- The same archives have the same symbols. -/
theorem symbols_eq_of_shelf (hshelf : h.shelf = h'.shelf) (hcompiler : h.compiler = h'.compiler)
    (hx : h.extracted tools = .ok symbols) (hy : h'.extracted tools = .ok symbols') :
    symbols = symbols' := by
  obtain ⟨-, tables, htables, hlink⟩ := extracted_eq_ok_iff.1 hx
  obtain ⟨-, tables', htables', hlink'⟩ := extracted_eq_ok_iff.1 hy
  have hsame : h.tableOf tools = h'.tableOf tools := by
    funext e
    rw [tableOf, tableOf, hcompiler]
  rw [hshelf, hsame, htables'] at htables
  cases htables
  rw [hlink'] at hlink
  cases hlink
  rfl

end

private theorem mapM_archive_eq_ok {packages : List Package} {found : List (Option Path)}
    (hf : packages.mapM (fun p => h.archive? p.name) = .ok found) :
    found.filterMap id = (packages.filterMap h.entry?).map (·.2) := by
  induction packages generalizing found with
  | nil =>
    cases hf
    rfl
  | cons package rest ih =>
    rw [List.mapM_cons] at hf
    obtain ⟨path?, hpath, hf⟩ := Except.bind_eq_ok_iff.1 hf
    obtain ⟨more, hmore, hf⟩ := Except.bind_eq_ok_iff.1 hf
    cases hf
    have hentry : path? = (h.entry? package).map (·.2) := by
      unfold archive? at hpath
      split at hpath
      · cases hpath
        unfold entry?
        cases package.name.text? with
        | none => rfl
        | some name => cases hl : h.archives.lookup name <;> simp [hl]
      · cases hpath
    rw [List.filterMap_cons, List.filterMap_cons, ih hmore, hentry]
    cases h.entry? package <;> rfl

theorem archivePaths_eq_ok {paths : List Path} (hp : h.archivePaths = .ok paths) :
    paths = h.shelf.map (·.2) := by
  obtain ⟨found, hf, hp⟩ := Except.bind_eq_ok_iff.1 hp
  cases hp
  exact mapM_archive_eq_ok hf

end Half
end DualImage
