import DualImage.Proofs.Listing.Entries
import DualImage.Proofs.Listing.Fields

/-! What the fields of a symbol are like that was read, whatever the listing was. -/
namespace DualImage.Listing
variable {o : Origin} {text : String} {line : List Char} {s : Symbol}

/-- What the reader sees to. The numbers may be out of range, for a size may bear a sign. -/
structure Shaped (s : Symbol) : Prop where
  code : List.Forall₂ (· ∈ ·) s.code.toList columnChars
  sectionName : Text.IsWord s.sectionName.toList
  name : Text.IsWord s.name.toList

theorem Reading.shaped {package suffix : Text}
    (h : (Reading.ofLine line package suffix).symbol? = some s) : Shaped s := by
  obtain ⟨f, -, hstand, -, -, hcode, hsection, hname⟩ := exists_fields h
  refine ⟨?_, ?_, isWord_of_mem_words hname⟩
  · rw [hcode]
    exact hstand.code
  · rw [hsection]
    exact hstand.sectionName

/-- What a table of a listing holds was kept by the reader and is of the listing's provenance. -/
theorem shaped_of_mem_table (hs : s ∈ (o.table text).symbols) :
    Shaped s ∧ o.keeps s = true ∧ o.adopt s = s := by
  obtain ⟨line, -, hline⟩ := List.mem_filterMap.1 (SymbolTable.mem_of_mem_ofList hs)
  obtain ⟨hread, hkeeps⟩ := Option.filter_eq_some_iff.1 hline
  obtain ⟨hpackage, hsuffix⟩ := Reading.provenance_of_symbol hread
  refine ⟨Reading.shaped hread, hkeeps, ?_⟩
  rw [Origin.adopt, ← hpackage, ← hsuffix]

end DualImage.Listing
