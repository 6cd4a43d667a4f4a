import DualImage.Proofs.Listing.ReadBack
import DualImage.Proofs.Text.Pieces

/-! The fields of a line that is read as a symbol. The address is a row of hexadecimal digits and the
names are words. The size is whatever the lenient reader of numbers takes: it may have a sign, a mark
and underscores, and it may be negative. -/
namespace DualImage.Listing
variable {line cs w rest : List Char} {package suffix : Text} {s : Symbol}

/-- At least one digit, and nothing else. -/
def IsHexadecimal (cs : List Char) : Prop := cs ≠ [] ∧ ∀ c ∈ cs, isHexDigit c = true

instance : DecidablePred IsHexadecimal := fun cs =>
  decidable_of_iff (cs ≠ [] ∧ cs.all isHexDigit = true) (and_congr_right fun _ => List.all_eq_true)

/-- At least one space or tab. -/
def IsGaps (cs : List Char) : Prop := cs ≠ [] ∧ ∀ c ∈ cs, isGap c = true

/-- What stands in a line, and where. -/
structure Fields.StandIn (f : Fields) (line : List Char) : Prop where
  layout : ∃ beforeSection beforeSize beforeLabel after,
    IsGaps beforeSection ∧ IsGaps beforeSize ∧ IsGaps beforeLabel ∧
    (∀ c ∈ after, Text.isBlank c = true) ∧
    line = f.address ++ ' ' :: (f.code ++ (beforeSection ++ (f.sectionName ++
      (beforeSize ++ (f.size ++ (beforeLabel ++ (f.label ++ after)))))))
  address : IsHexadecimal f.address
  code : List.Forall₂ (· ∈ ·) f.code columnChars
  sectionName : Text.IsWord f.sectionName
  size : Text.IsWord f.size
  label : ∃ c ∈ f.label, Text.isBlank c = false

private theorem of_code? {columns : List (List Char)} {code : List Char}
    (h : code? columns cs = some (code, rest)) :
    cs = code ++ rest ∧ List.Forall₂ (· ∈ ·) code columns := by
  induction columns generalizing cs code with
  | nil =>
    cases h
    exact ⟨rfl, .nil⟩
  | cons allowed more ih =>
    cases cs with
    | nil => cases h
    | cons c cs =>
      rw [code?] at h
      split at h
      · next hc =>
        obtain ⟨⟨code', rest'⟩, hmore, he⟩ := Option.map_eq_some_iff.1 h
        cases he
        obtain ⟨rfl, hcode⟩ := ih hmore
        exact ⟨rfl, .cons hc hcode⟩
      · cases h

private theorem of_afterGap? (h : afterGap? cs = some rest) :
    ∃ gaps, IsGaps gaps ∧ cs = gaps ++ rest := by
  cases cs with
  | nil => cases h
  | cons c cs =>
    rw [afterGap?] at h
    split at h
    · next hc =>
      cases h
      refine ⟨c :: cs.takeWhile isGap, ⟨List.cons_ne_nil _ _, ?_⟩, ?_⟩
      · exact List.forall_mem_cons.2 ⟨hc, List.all_eq_true.1 List.all_takeWhile⟩
      · rw [List.cons_append, List.takeWhile_append_dropWhile]
    · cases h

private theorem of_word? (h : word? cs = some (w, rest)) :
    Text.IsWord w ∧ ∃ gaps, IsGaps gaps ∧ cs = gaps ++ (w ++ rest) := by
  obtain ⟨after, hafter, hword⟩ := Option.bind_eq_some_iff.1 h
  obtain ⟨gaps, hgaps, rfl⟩ := of_afterGap? hafter
  dsimp only at hword
  split at hword
  · cases hword
  · next hne =>
    cases hword
    refine ⟨⟨by simpa using hne, fun c hc => ?_⟩, gaps, hgaps, ?_⟩
    · simpa using List.all_eq_true.1 (List.all_takeWhile (l := after) (p := (!Text.isBlank ·))) c hc
    · rw [List.takeWhile_append_dropWhile]

private theorem exists_append_trimEnd (cs : List Char) :
    ∃ after, (∀ c ∈ after, Text.isBlank c = true) ∧ cs = Text.trimEnd cs ++ after := by
  refine ⟨(cs.reverse.takeWhile Text.isBlank).reverse, fun c hc => ?_, ?_⟩
  · exact List.all_eq_true.1 List.all_takeWhile c (List.mem_reverse.1 hc)
  · rw [Text.trimEnd, ← List.reverse_append, List.takeWhile_append_dropWhile, List.reverse_reverse]

private theorem of_label? (h : label? cs = some w) :
    (∃ c ∈ w, Text.isBlank c = false) ∧ ∃ gaps after, IsGaps gaps ∧
      (∀ c ∈ after, Text.isBlank c = true) ∧ cs = gaps ++ (w ++ after) := by
  obtain ⟨trimmed, hafter, hlabel⟩ := Option.bind_eq_some_iff.1 h
  obtain ⟨gaps, hgaps, rfl⟩ := of_afterGap? hafter
  obtain ⟨after, hblank, happend⟩ := exists_append_trimEnd trimmed
  dsimp only at hlabel
  split at hlabel
  · cases hlabel
  · next hne =>
    cases hlabel
    refine ⟨?_, gaps, after, hgaps, hblank, congrArg _ happend⟩
    cases hw : Text.trimEnd trimmed with
    | nil => simp [hw] at hne
    | cons c rest =>
      refine ⟨c, List.mem_cons_self, ?_⟩
      simp only [hw, Bool.or_eq_true, not_or] at hne
      simpa using hne.1.2

theorem Fields.standIn_of_ofLine? {f : Fields} (h : ofLine? line = some f) : f.StandIn line := by
  unfold ofLine? at h
  split at h
  · next rest hrest =>
    dsimp only at h
    split at h
    · cases h
    · next hempty =>
      simp only [Option.bind_eq_bind, Option.bind_eq_some_iff] at h
      obtain ⟨⟨code, rest₁⟩, hcode, ⟨sectionName, rest₂⟩, hsection, ⟨size, rest₃⟩, hsize, label,
        hlabel, he⟩ := h
      cases he
      obtain ⟨rfl, hcolumns⟩ := of_code? hcode
      obtain ⟨hsectionWord, beforeSection, hbeforeSection, rfl⟩ := of_word? hsection
      obtain ⟨hsizeWord, beforeSize, hbeforeSize, rfl⟩ := of_word? hsize
      obtain ⟨hlabelWord, beforeLabel, after, hbeforeLabel, hafter, rfl⟩ := of_label? hlabel
      refine ⟨⟨beforeSection, beforeSize, beforeLabel, after, hbeforeSection, hbeforeSize,
        hbeforeLabel, hafter, ?_⟩, ⟨by simpa using hempty, ?_⟩, hcolumns, hsectionWord, hsizeWord,
        hlabelWord⟩
      · rw [← hrest, List.takeWhile_append_dropWhile]
      · exact List.all_eq_true.1 List.all_takeWhile
  · cases h

private theorem nonneg_of_isHexadecimal {i : Int} (h : Text.Numeral.integer? 16 cs = some i)
    (hcs : IsHexadecimal cs) : 0 ≤ i := by
  obtain ⟨p, hp, rfl, hnumber⟩ := (Text.Numeral.integer?_eq_some_iff
    fun c hc => not_blank_of_isHexDigit (hcs.2 c hc)).1 h
  by_contra hneg
  obtain ⟨hsign, -⟩ := (Text.Numeral.Parts.neg_iff hnumber).1 (not_le.1 hneg)
  have hminus : isHexDigit '-' = true := hcs.2 '-' (by simp [Text.Numeral.Parts.chars, hsign])
  cases hminus

private theorem of_word32? {i : Int} (h : word32? cs = some i) :
    Text.Numeral.integer? 16 cs = some i ∧ i < 2 ^ 32 := by
  obtain ⟨hi, hle⟩ := Option.filter_eq_some_iff.1 h
  exact ⟨hi, Int.lt_add_one_of_le (of_decide_eq_true hle)⟩

/-- Each field of a symbol comes from one field of its line. -/
theorem exists_fields (h : (Reading.ofLine line package suffix).symbol? = some s) :
    ∃ f, Fields.ofLine? line = some f ∧ f.StandIn line ∧ word32? f.address = some s.address ∧
      word32? f.size = some s.size ∧ s.code.toList = f.code ∧ s.sectionName.toList = f.sectionName ∧
      s.name.toList ∈ Text.words f.label := by
  unfold Reading.ofLine at h
  split at h
  · cases h
  · next f hfields =>
    have hstand := Fields.standIn_of_ofLine? hfields
    split at h
    · cases h
    · cases h
    · next address size haddress hsize =>
      obtain ⟨c, hc, hblank⟩ := hstand.label
      have hne := Text.words_ne_nil hc hblank
      cases h
      refine ⟨f, hfields, hstand, haddress, hsize, String.toList_ofList, String.toList_ofList, ?_⟩
      rw [String.toList_ofList, List.getLast?_eq_some_getLast hne, Option.getD_some]
      exact List.getLast_mem hne

theorem isWord_of_mem_words (h : w ∈ Text.words cs) : Text.IsWord w :=
  ⟨Text.ne_nil_of_mem_words h, fun _ hc => Text.not_blank_of_mem_words h hc⟩

/-- What holds of every line that is read as a symbol: its address is a row of hexadecimal digits for
a number of 32 bits, section and name are words, and the size is below that limit too. The size is
written as any number may be, and just a minus sign makes it negative. -/
theorem fields_of_symbol (h : (Reading.ofLine line package suffix).symbol? = some s) :
    ∃ f, Fields.ofLine? line = some f ∧ f.StandIn line ∧
      (IsHexadecimal f.address ∧ 0 ≤ s.address ∧ s.address < 2 ^ 32) ∧
      (Text.IsWord s.sectionName.toList ∧ Text.IsWord s.name.toList) ∧
      s.size < 2 ^ 32 ∧ (IsHexadecimal f.size → 0 ≤ s.size) ∧
      ∃ p : Text.Numeral.Parts, p.Lawful 16 ∧ p.chars = f.size ∧ p.number? 16 = some s.size ∧
        (s.size < 0 ↔ p.sign = ['-'] ∧ s.size ≠ 0) := by
  obtain ⟨f, hfields, hstand, haddress, hsize, -, hsection, hname⟩ := exists_fields h
  obtain ⟨haddress, haddressBound⟩ := of_word32? haddress
  obtain ⟨hsize, hsizeBound⟩ := of_word32? hsize
  obtain ⟨p, hp, hchars, hnumber⟩ := (Text.Numeral.integer?_eq_some_iff hstand.size.2).1 hsize
  refine ⟨f, hfields, hstand, ⟨hstand.address, ?_, haddressBound⟩, ⟨?_, isWord_of_mem_words hname⟩,
    hsizeBound, nonneg_of_isHexadecimal hsize, p, hp, hchars, hnumber,
    Text.Numeral.Parts.neg_iff hnumber⟩
  · exact nonneg_of_isHexadecimal haddress hstand.address
  · rw [hsection]
    exact hstand.sectionName

/-- A line of one symbol with the given size. -/
def lineOfSize (size : String) : List Char := ("00000000 g     O .data\t" ++ size ++ " x").toList

/-- A mark and an underscore do no harm to the size. -/
theorem fields_of_marked_size :
    ∃ s, (Reading.ofLine (lineOfSize "0x0_4") "p" ".a").symbol? = some s ∧
      (0 ≤ s.address ∧ s.address < 2 ^ 32) ∧ s.size = 4 ∧
      ∃ p : Text.Numeral.Parts, p.Lawful 16 ∧ p.chars = "0x0_4".toList ∧ p.number? 16 = some 4 := by
  obtain ⟨s, hs, hsize⟩ : ∃ s, (Reading.ofLine (lineOfSize "0x0_4") "p" ".a").symbol? = some s ∧
      s.size = 4 := ⟨_, rfl, rfl⟩
  obtain ⟨f, hf, -, ⟨-, haddress⟩, -, -, -, p, hp, hchars, hnumber, -⟩ := fields_of_symbol hs
  obtain rfl := Option.some.inj (hf.symm.trans rfl)
  exact ⟨s, hs, haddress, hsize, p, hp, hchars, hsize ▸ hnumber⟩

/-- A size that is no row of digits is read, and is negative. -/
theorem symbol_of_negative_size :
    ∃ f s, Fields.ofLine? (lineOfSize "-4") = some f ∧
      (Reading.ofLine (lineOfSize "-4") "p" ".a").symbol? = some s ∧
      ¬ IsHexadecimal f.size ∧ s.size = -4 :=
  ⟨_, _, rfl, rfl, by decide, by decide⟩

end DualImage.Listing
