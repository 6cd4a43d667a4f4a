import DualImage.Listing.Printer
import DualImage.Proofs.SymbolTable.Lookup
import DualImage.Proofs.Text.Hexadecimal
import DualImage.Proofs.Text.Lines
import DualImage.Proofs.Text.Numeral

/-! Reading a listing gives back the symbols that were printed, whatever else stands between them. -/
namespace DualImage

/-- One run without blanks. -/
def Text.IsWord (cs : List Char) : Prop := cs ≠ [] ∧ ∀ c ∈ cs, Text.isBlank c = false

instance (cs : List Char) : Decidable (Text.IsWord cs) :=
  decidable_of_iff ((!cs.isEmpty && cs.all (!Text.isBlank ·)) = true) (by simp [Text.IsWord])

namespace Text
variable {cs w : List Char}

theorem trimEnd_append (h : IsWord w) (cs : List Char) : trimEnd (cs ++ w) = cs ++ w := by
  obtain ⟨before, c, rfl⟩ := (List.eq_nil_or_concat w).resolve_left h.1
  have hc := h.2 c (by simp)
  simp [trimEnd, hc]

theorem words_of_isWord (h : IsWord w) : words w = [w] := by
  simp [words, List.splitOnP_eq_singleton h.2, h.1]

theorem words_append_space (hcs : IsWord cs) (hw : IsWord w) : words (cs ++ ' ' :: w) = [cs, w] := by
  have hsplit := List.splitOnP_append_cons_of_forall_mem hcs.2 ' ' rfl w
  have hlast := words_of_isWord hw
  simp only [words] at *
  simp [hsplit, hcs.1, hlast]

end Text

namespace Listing

/-- What a symbol must be like to stand in a listing: words where words stand, flags that the columns
know, numbers of 32 bits. -/
structure Listable (s : Symbol) : Prop where
  address : 0 ≤ s.address ∧ s.address < 2 ^ 32
  size : 0 ≤ s.size ∧ s.size < 2 ^ 32
  code : List.Forall₂ (· ∈ ·) s.code.toList columnChars
  sectionName : Text.IsWord s.sectionName.toList
  name : Text.IsWord s.name.toList

/-- A symbol as a line shows it: the digits of its numbers and what stands before its name. -/
structure Entry where
  symbol : Symbol
  address : List Char
  size : List Char
  marker : Option String
  deriving DecidableEq, Repr

namespace Entry

/-- The end of the line, from the gap after the size. -/
def label (e : Entry) : List Char :=
  e.marker.elim [] (·.toList ++ [' ']) ++ e.symbol.name.toList

def line (e : Entry) : List Char :=
  e.address ++ ' ' :: e.symbol.code.toList ++ ' ' :: e.symbol.sectionName.toList ++
    '\t' :: e.size ++ ' ' :: e.label

structure Printed (e : Entry) : Prop where
  listable : Listable e.symbol
  address : Text.Hexadecimal.Spells 8 e.address e.symbol.address.toNat
  size : Text.Hexadecimal.Spells 8 e.size e.symbol.size.toNat
  marker : ∀ m ∈ e.marker, ∀ c ∈ m.toList, Text.isBlank c = false

/-- The entry that a dump writes. -/
def ofSymbol (marker : Option String) (s : Symbol) : Entry :=
  ⟨s, column s.address, column s.size, marker⟩

theorem line_ofSymbol (marker : Option String) (s : Symbol) :
    (ofSymbol marker s).line = lineOf marker s := by
  simp [ofSymbol, line, label, lineOf]

theorem printed_ofSymbol {marker : Option String} {s : Symbol} (h : Listable s)
    (hmarker : ∀ m ∈ marker, ∀ c ∈ m.toList, Text.isBlank c = false) :
    (ofSymbol marker s).Printed :=
  ⟨h, Text.Hexadecimal.spells_digits .., Text.Hexadecimal.spells_digits .., hmarker⟩

end Entry

variable {e : Entry} {cs rest : List Char} {n : Nat}

private theorem isHexDigit_toLower (c : Char) : isHexDigit c.toLower = isHexDigit c := by
  by_cases h : 65 ≤ c.toNat ∧ c.toNat ≤ 90
  · obtain ⟨hlow, hhigh⟩ := h
    rw [← Char.ofNat_toNat c]
    generalize c.toNat = k at hlow hhigh
    interval_cases k <;> rfl
  · have hlower : c.toLower = c := by
      unfold Char.toLower
      exact dif_neg h
    rw [hlower]

theorem isHexDigit_of_spells {width : Nat} (h : Text.Hexadecimal.Spells width cs n) :
    ∀ c ∈ cs, isHexDigit c = true := by
  obtain ⟨padded, -, hcs⟩ := h
  obtain ⟨ds, hds, hlt, -⟩ := Text.Hexadecimal.exists_digits padded n
  intro c hc
  have hmem : c.toLower ∈ ds.map Nat.digitChar := hds ▸ hcs ▸ List.mem_map_of_mem hc
  obtain ⟨d, hd, hdc⟩ := List.mem_map.1 hmem
  have hdigit : d < 16 := hlt d hd
  rw [← isHexDigit_toLower, ← hdc]
  interval_cases d <;> rfl

theorem not_blank_of_isHexDigit {c : Char} (h : isHexDigit c = true) :
    Text.isBlank c = false := by
  have hsmall : c.toNat < 128 := by
    simp only [isHexDigit, Bool.or_eq_true, Bool.and_eq_true, decide_eq_true_eq, Char.le_def,
      UInt32.le_iff_toNat_le, Char.reduceVal, UInt32.reduceToNat, Char.toNat_val] at h
    omega
  have hall : ∀ k < 128, isHexDigit (Char.ofNat k) = true →
      Text.isBlank (Char.ofNat k) = false := by
    decide +kernel
  have hc := hall c.toNat hsmall
  rw [Char.ofNat_toNat] at hc
  exact hc h

theorem isWord_of_spells {width : Nat} (h : Text.Hexadecimal.Spells width cs n) :
    Text.IsWord cs := by
  refine ⟨?_, fun c hc => not_blank_of_isHexDigit (isHexDigit_of_spells h c hc)⟩
  rintro rfl
  obtain ⟨padded, -, hcs⟩ := h
  obtain ⟨ds, hds, -, -, hne⟩ := Text.Hexadecimal.exists_digits padded n
  exact hne (List.map_eq_nil_iff.1 (hds.symm.trans hcs.symm))

theorem integer?_of_spells {width : Nat} (h : Text.Hexadecimal.Spells width cs n) :
    Text.Numeral.integer? 16 cs = some (n : Int) := by
  have hword := isWord_of_spells h
  refine (Text.Numeral.integer?_eq_some_iff hword.2).2 ⟨⟨[], [], [cs]⟩, ⟨by simp, .inl rfl, ?_⟩, ?_, ?_⟩
  · simpa using hword.1
  · simp [Text.Numeral.Parts.chars, List.intercalate]
  · simp [Text.Numeral.Parts.number?, Text.Numeral.value?_of_spells h]

theorem word32?_of_spells {width : Nat} {i : Int} (h : Text.Hexadecimal.Spells width cs i.toNat)
    (hi : 0 ≤ i ∧ i < 2 ^ 32) : word32? cs = some i := by
  have hnat : (i.toNat : Int) = i := Int.toNat_of_nonneg hi.1
  have hle : i ≤ maxWord := Int.le_sub_one_of_lt hi.2
  rw [word32?, integer?_of_spells h, hnat]
  simp [hle]

theorem code?_append {columns : List (List Char)} {code : List Char}
    (h : List.Forall₂ (· ∈ ·) code columns) (rest : List Char) :
    code? columns (code ++ rest) = some (code, rest) := by
  induction h with
  | nil => rfl
  | cons hc _ ih => simp [code?, hc, ih]

private theorem dropWhile_isGap {w : List Char} (hw : ∀ c ∈ w, Text.isBlank c = false) (hne : w ≠ [])
    (rest : List Char) : (w ++ rest).dropWhile isGap = w ++ rest := by
  cases w with
  | nil => exact absurd rfl hne
  | cons c w =>
    have hc : isGap c = false := by
      refine Bool.of_not_eq_true fun hgap => ?_
      have hblank := hw c List.mem_cons_self
      simp only [isGap, Bool.or_eq_true, beq_iff_eq] at hgap
      rcases hgap with rfl | rfl <;> cases hblank
    simp [hc]

/-- A word is read up to the gap behind it. -/
theorem word?_append {w : List Char} (hw : Text.IsWord w) (before after : Char)
    (hbefore : isGap before = true) (hafter : Text.isBlank after = true) (rest : List Char) :
    word? (before :: (w ++ after :: rest)) = some (w, after :: rest) := by
  have htake : (w ++ after :: rest).takeWhile (!Text.isBlank ·) = w := by
    rw [List.takeWhile_append_of_pos (by simpa using hw.2)]
    simp [hafter]
  have hdrop : (w ++ after :: rest).dropWhile (!Text.isBlank ·) = after :: rest := by
    rw [List.dropWhile_append_of_pos (by simpa using hw.2)]
    simp [hafter]
  have hgap : afterGap? (before :: (w ++ after :: rest)) = some (w ++ after :: rest) := by
    simp [afterGap?, hbefore, dropWhile_isGap hw.2 hw.1]
  simp only [word?, hgap, Option.bind_eq_bind, Option.bind_some, htake, hdrop,
    List.isEmpty_eq_false_iff.2 hw.1, Bool.false_eq_true, if_false]

namespace Entry

private theorem label_cases (h : e.Printed) :
    e.label.dropWhile isGap = e.symbol.name.toList ∨
      ∃ m, Text.IsWord m ∧ e.label.dropWhile isGap = m ++ ' ' :: e.symbol.name.toList := by
  have hname := h.listable.name
  have hgap := dropWhile_isGap hname.2 hname.1 []
  rw [List.append_nil] at hgap
  cases hm : e.marker with
  | none => exact .inl (by simpa [label, hm] using hgap)
  | some m =>
    have hlabel : e.label = m.toList ++ ' ' :: e.symbol.name.toList := by simp [label, hm]
    have hblank := h.marker m hm
    by_cases hempty : m.toList = []
    · refine .inl ?_
      rw [hlabel, hempty]
      exact hgap
    · refine .inr ⟨m.toList, ⟨hempty, hblank⟩, ?_⟩
      rw [hlabel]
      exact dropWhile_isGap hblank hempty _

private theorem label?_label (h : e.Printed) :
    label? (' ' :: e.label) = some (e.label.dropWhile isGap) := by
  have hname := h.listable.name
  have hbreak {w : List Char} (hw : ∀ c ∈ w, Text.isBlank c = false) : '\n' ∉ w :=
    fun hc => by cases hw _ hc
  have hhead {w : List Char} (hw : Text.IsWord w) : w.head?.any Text.isBlank = false := by
    obtain ⟨c, w, rfl⟩ := List.exists_cons_of_ne_nil hw.1
    exact hw.2 c List.mem_cons_self
  have hstart : afterGap? (' ' :: e.label) = some (e.label.dropWhile isGap) := rfl
  rw [label?, hstart]
  rcases label_cases h with hlabel | ⟨m, hm, hlabel⟩
  · have htrim := Text.trimEnd_append hname []
    rw [List.nil_append] at htrim
    simp [hlabel, htrim, hname.1, hhead hname, hbreak hname.2]
  · have htrim := Text.trimEnd_append hname (m ++ [' '])
    rw [List.append_assoc, List.singleton_append] at htrim
    have hfirst : (m ++ ' ' :: e.symbol.name.toList).head? = m.head? :=
      List.head?_append_of_ne_nil _ hm.1
    simp [hlabel, htrim, hfirst, hhead hm, hbreak hm.2, hbreak hname.2]

private theorem getLast?_words_label (h : e.Printed) :
    (Text.words (e.label.dropWhile isGap)).getLast? = some e.symbol.name.toList := by
  have hname := h.listable.name
  rcases label_cases h with hlabel | ⟨m, hm, hlabel⟩
  · rw [hlabel, Text.words_of_isWord hname]
    rfl
  · rw [hlabel, Text.words_append_space hm hname]
    rfl

theorem ofLine?_line (h : e.Printed) :
    Fields.ofLine? e.line = some ⟨e.address, e.symbol.code.toList, e.symbol.sectionName.toList,
      e.size, e.label.dropWhile isGap⟩ := by
  have hdigits := isHexDigit_of_spells h.address
  have hspace : isHexDigit ' ' = false := rfl
  have hline : e.line = e.address ++ ' ' :: (e.symbol.code.toList ++
      ' ' :: (e.symbol.sectionName.toList ++ '\t' :: (e.size ++ ' ' :: e.label))) := by
    simp [line]
  have htake : e.line.takeWhile isHexDigit = e.address := by
    rw [hline, List.takeWhile_append_of_pos hdigits]
    simp [hspace]
  have hdrop : e.line.dropWhile isHexDigit = ' ' :: (e.symbol.code.toList ++
      ' ' :: (e.symbol.sectionName.toList ++ '\t' :: (e.size ++ ' ' :: e.label))) := by
    rw [hline, List.dropWhile_append_of_pos hdigits]
    simp [hspace]
  have hsection := word?_append h.listable.sectionName ' ' '\t' rfl rfl
    (e.size ++ ' ' :: e.label)
  have hsize := word?_append (isWord_of_spells h.size) '\t' ' ' rfl rfl e.label
  simp [Fields.ofLine?, htake, hdrop, (isWord_of_spells h.address).1,
    code?_append h.listable.code, hsection, hsize, label?_label h]

end Entry

/-- The symbol with the provenance of the listing. -/
def Origin.adopt (o : Origin) (s : Symbol) : Symbol :=
  { s with package := o.package, suffix := o.suffix }

theorem Origin.reading_line (h : e.Printed) (o : Origin) :
    o.reading e.line = .symbol (o.adopt e.symbol) := by
  simp [reading, Reading.ofLine, Entry.ofLine?_line h, word32?_of_spells h.address h.listable.address,
    word32?_of_spells h.size h.listable.size, Entry.getLast?_words_label h, adopt]

/-- What a line of a listing may be: a symbol, or anything else that the reader takes for none. -/
inductive Content where
  | entry (e : Entry)
  | other (line : List Char)
  deriving DecidableEq, Repr

namespace Content

def line : Content → List Char
  | entry e => e.line
  | other line => line

def symbol? : Content → Option Symbol
  | entry e => some e.symbol
  | other _ => none

def Admissible (o : Origin) : Content → Prop
  | entry e => e.Printed
  | other line => (∀ c ∈ line, Text.isLineBreak c = false) ∧ (o.reading line).symbol? = none

end Content

/-- A line with its break. -/
structure Row where
  content : Content
  carriageReturn : Bool
  deriving DecidableEq, Repr

def printed (rows : List Row) : String :=
  String.ofList (rows.flatMap fun r =>
    r.content.line ++ if r.carriageReturn then ['\r', '\n'] else ['\n'])

def symbolsOf (rows : List Row) : List Symbol := rows.filterMap (·.content.symbol?)

variable {o : Origin} {rows : List Row}

private theorem not_break_of_mem_line (h : e.Printed) :
    ∀ c ∈ e.line, Text.isLineBreak c = false := by
  have hword {w : List Char} (hw : ∀ c ∈ w, Text.isBlank c = false) :
      ∀ c ∈ w, Text.isLineBreak c = false := fun c hc => Text.isLineBreak_of_not_blank (hw c hc)
  have hcode : ∀ c ∈ e.symbol.code.toList, Text.isLineBreak c = false := by
    have hcolumns : ∀ cs ∈ columnChars, ∀ c ∈ cs, Text.isLineBreak c = false := by
      simp [columnChars, Text.isLineBreak]
    intro c hc
    obtain ⟨i, hi, rfl⟩ := List.mem_iff_getElem.1 hc
    obtain ⟨hlength, hget⟩ := List.forall₂_iff_get.1 h.listable.code
    exact hcolumns _ (List.getElem_mem (hlength ▸ hi)) _ (hget i hi (hlength ▸ hi))
  have hmarker : ∀ c ∈ e.marker.elim [] (·.toList ++ [' ']), Text.isLineBreak c = false := by
    cases hm : e.marker with
    | none => simp
    | some m =>
      intro c hc
      rcases List.mem_append.1 hc with hc | hc
      · exact hword (h.marker m hm) c hc
      · rw [List.mem_singleton.1 hc]
        rfl
  have hspace : Text.isLineBreak ' ' = false := rfl
  have htab : Text.isLineBreak '\t' = false := rfl
  simp only [Entry.line, Entry.label, List.append_assoc, List.cons_append, List.forall_mem_append,
    List.forall_mem_cons]
  exact ⟨hword (isWord_of_spells h.address).2, hspace, hcode, hspace,
    hword h.listable.sectionName.2, htab, hword (isWord_of_spells h.size).2, hspace, hmarker,
    hword h.listable.name.2⟩

theorem lines_printed (h : ∀ r ∈ rows, r.content.Admissible o) :
    Text.lines (printed rows).toList = rows.map (·.content.line) := by
  rw [printed, String.toList_ofList]
  induction rows with
  | nil => rfl
  | cons r rest ih =>
    have hr : ∀ c ∈ r.content.line, Text.isLineBreak c = false := by
      have hadmissible := h r List.mem_cons_self
      cases hcontent : r.content with
      | entry e =>
        rw [hcontent] at hadmissible
        exact not_break_of_mem_line hadmissible
      | other line =>
        rw [hcontent] at hadmissible
        exact hadmissible.1
    rw [List.flatMap_cons, Text.lines_closed hr, List.map_cons,
      ih fun r hr => h r (List.mem_cons_of_mem _ hr)]

/-- The reader makes of a line what was printed on it. -/
theorem Content.symbol?_line {c : Content} (h : c.Admissible o) :
    o.symbol? c.line = (c.symbol?.filter o.keeps).map o.adopt := by
  cases c with
  | entry e =>
    have hkeeps : o.keeps (o.adopt e.symbol) = o.keeps e.symbol := rfl
    simp only [line, Origin.symbol?, Origin.reading_line h, Reading.symbol?, symbol?]
    cases hk : o.keeps e.symbol <;> simp [Option.filter, hkeeps, hk]
  | other line =>
    simp [Content.line, Origin.symbol?, h.2, symbol?]

theorem table_printed_eq (h : ∀ r ∈ rows, r.content.Admissible o) :
    o.table (printed rows) = .ofList (((symbolsOf rows).filter o.keeps).map o.adopt) := by
  have hsymbols : ((symbolsOf rows).filter o.keeps).map o.adopt =
      rows.filterMap fun r => (r.content.symbol?.filter o.keeps).map o.adopt := by
    rw [symbolsOf, List.filter_filterMap, List.map_filterMap]
  rw [Origin.table, lines_printed h, List.filterMap_map, hsymbols]
  exact congrArg _ (List.filterMap_congr fun r hr => Content.symbol?_line (h r hr))

/-- A listing that was read holds symbols that can be listed, kept and of its own provenance. -/
theorem listable_of_mem_table (h : ∀ r ∈ rows, r.content.Admissible o) {s : Symbol}
    (hs : s ∈ (o.table (printed rows)).symbols) :
    Listable s ∧ o.keeps s = true ∧ o.adopt s = s := by
  rw [table_printed_eq h] at hs
  obtain ⟨s, hkept, rfl⟩ := List.mem_map.1 (SymbolTable.mem_of_mem_ofList hs)
  obtain ⟨hmem, hkeeps⟩ := List.mem_filter.1 hkept
  obtain ⟨r, hr, hsymbol⟩ := List.mem_filterMap.1 hmem
  have hadmissible := h r hr
  cases hcontent : r.content with
  | entry e =>
    rw [hcontent] at hadmissible hsymbol
    obtain rfl := Option.some.inj hsymbol
    have hlistable : Listable e.symbol := hadmissible.listable
    exact ⟨⟨hlistable.1, hlistable.2, hlistable.3, hlistable.4, hlistable.5⟩, hkeeps, rfl⟩
  | other line =>
    rw [hcontent] at hsymbol
    cases hsymbol

/-- The lines that a dump writes for a table. -/
def rowsOf (t : SymbolTable) : List Row :=
  t.symbols.map fun s => ⟨.entry (.ofSymbol none s), false⟩

theorem printed_rowsOf (t : SymbolTable) : printed (rowsOf t) = ofTable t := by
  simp [printed, rowsOf, ofTable, Content.line, Entry.line_ofSymbol, List.flatMap_map]

theorem symbolsOf_rowsOf (t : SymbolTable) : symbolsOf (rowsOf t) = t.symbols := by
  simp [symbolsOf, rowsOf, List.filterMap_map, Content.symbol?, Entry.ofSymbol]

private theorem table_printed_again {t : SymbolTable}
    (hrows : ∀ r ∈ rows, r.content.Admissible o) (hsymbols : symbolsOf rows = t.symbols)
    (ht : ∀ s ∈ t.symbols, o.keeps s = true ∧ o.adopt s = s) : o.table (printed rows) = t := by
  have hfilter : t.symbols.filter o.keeps = t.symbols :=
    List.filter_eq_self.2 fun s hs => (ht s hs).1
  have hmap : t.symbols.map o.adopt = t.symbols :=
    (List.map_congr_left fun s hs => (ht s hs).2).trans (List.map_id _)
  rw [table_printed_eq hrows, hsymbols, hfilter, hmap, SymbolTable.ofList_symbols]

/-- Reading a listing gives the printed symbols that the reader keeps, each with its fields as they
were and the provenance of the listing. Printed again in whatever way, they are read the same. -/
theorem table_printed (o : Origin) (rows : List Row) (h : ∀ r ∈ rows, r.content.Admissible o) :
    o.table (printed rows) = .ofList (((symbolsOf rows).filter o.keeps).map o.adopt) ∧
      (∀ again : List Row, (∀ r ∈ again, r.content.Admissible o) →
        symbolsOf again = (o.table (printed rows)).symbols →
        o.table (printed again) = o.table (printed rows)) ∧
      o.table (ofTable (o.table (printed rows))) = o.table (printed rows) := by
  have hagain := fun s hs => (listable_of_mem_table (s := s) h hs).2
  refine ⟨table_printed_eq h, fun again hadmissible hsymbols => ?_, ?_⟩
  · exact table_printed_again hadmissible hsymbols hagain
  · have hrows : ∀ r ∈ rowsOf (o.table (printed rows)), r.content.Admissible o := by
      intro r hr
      obtain ⟨s, hs, rfl⟩ := List.mem_map.1 hr
      exact Entry.printed_ofSymbol (listable_of_mem_table h hs).1 (by simp)
    rw [← printed_rowsOf]
    exact table_printed_again hrows (symbolsOf_rowsOf _) hagain

/-- A hidden function between a title and a reference that nothing in the archive defines. -/
def helperRows : List Row :=
  [⟨.other "SYMBOL TABLE:".toList, true⟩,
    ⟨.entry (.ofSymbol (some ".hidden")
      ⟨"helper", "g     F", ".text", 0x2E, 0x94E0, "", ""⟩), false⟩,
    ⟨.entry (.ofSymbol none ⟨"memcpy", "       ", "*UND*", 0, 0, "", ""⟩), true⟩]

theorem table_helperRows :
    (∀ r ∈ helperRows, r.content.Admissible (.ofArchive "boot")) ∧
      (Origin.ofArchive "boot").table (printed helperRows) =
        .ofList [⟨"helper", "g     F", ".text", 0x2E, 0x94E0, "boot", ".a"⟩] := by
  have hadmissible : ∀ r ∈ helperRows, r.content.Admissible (.ofArchive "boot") := by
    simp only [helperRows, List.forall_mem_cons, List.not_mem_nil, false_implies, implies_true,
      and_true]
    have hmarker : Text.IsWord ".hidden".toList := by decide
    refine ⟨⟨by simp [Text.isLineBreak], rfl⟩, Entry.printed_ofSymbol ?_ (by simpa using hmarker.2),
      Entry.printed_ofSymbol ?_ (by simp)⟩
    · exact ⟨by decide, by decide, by simp [columnChars], by decide, by decide⟩
    · exact ⟨by decide, by decide, by simp [columnChars], by decide, by decide⟩
  exact ⟨hadmissible, (table_printed _ _ hadmissible).1⟩

end Listing
end DualImage
