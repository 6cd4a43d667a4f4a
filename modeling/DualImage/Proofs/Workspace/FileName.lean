import DualImage.Workspace.FileName

/-! Names of files are their bytes: reading a name back changes none of them. -/
namespace DualImage.FileName

theorem bytes?_cons (c : CodePoint) (codes : List CodePoint) :
    bytes? ⟨c :: codes⟩ =
      (bytesOf? c).bind fun bytes => (bytes? ⟨codes⟩).map (bytes ++ ·) := by
  simp only [bytes?, List.mapM_cons]
  cases bytesOf? c with
  | none => rfl
  | some bytes => cases codes.mapM bytesOf? <;> rfl

theorem bytes?_append (a b : Text) :
    bytes? (a ++ b) = (bytes? a).bind fun front => (bytes? b).map (front ++ ·) := by
  obtain ⟨codes⟩ := a
  induction codes with
  | nil => cases h : bytes? b <;> exact h
  | cons c codes ih =>
    have happend : (⟨c :: codes⟩ : Text) ++ b = ⟨c :: ((⟨codes⟩ : Text) ++ b).codes⟩ := rfl
    rw [happend, bytes?_cons, bytes?_cons, ih]
    cases bytesOf? c with
    | none => rfl
    | some bytes =>
      cases bytes? ⟨codes⟩ with
      | none => rfl
      | some front => cases bytes? b <;> simp

/-- The first character of some bytes, if they begin with one. -/
private theorem decode_eq_some_iff {b : UInt8} {rest : List UInt8} {c : Char} :
    (ByteArray.mk (b :: rest.take 3).toArray).utf8DecodeChar? 0 = some c ↔
      String.utf8EncodeChar c <+: b :: rest := by
  constructor
  · intro h
    obtain ⟨tail, htail⟩ := ByteArray.exists_of_utf8DecodeChar?_eq_some h
    have hbytes : b :: rest.take 3 = String.utf8EncodeChar c ++ tail.data.toList := by
      simpa [List.toList_data_toByteArray] using congrArg (fun a => a.data.toList) htail
    refine List.IsPrefix.trans ⟨_, hbytes.symm⟩ ?_
    exact (List.cons_prefix_cons).2 ⟨rfl, List.take_prefix 3 rest⟩
  · intro h
    have hshort : String.utf8EncodeChar c <+: (b :: rest).take 4 := by
      refine List.prefix_take_iff.2 ⟨h, ?_⟩
      rw [String.length_utf8EncodeChar]
      exact c.utf8Size_le_four
    obtain ⟨tail, htail⟩ := hshort
    have hread := ByteArray.utf8DecodeChar?_utf8EncodeChar_append (b := tail.toByteArray) (c := c)
    rw [← List.toByteArray_append, htail, List.take_succ_cons] at hread
    have hbytes : (b :: rest.take 3).toByteArray = ByteArray.mk (b :: rest.take 3).toArray :=
      ByteArray.ext List.data_toByteArray
    rw [← hbytes]
    exact hread

/-- A character that stands at the front of some bytes is the bytes it is written with. -/
private theorem eq_encode_append {b : UInt8} {rest : List UInt8} {c : Char}
    (h : (ByteArray.mk (b :: rest.take 3).toArray).utf8DecodeChar? 0 = some c) :
    b :: rest = String.utf8EncodeChar c ++ rest.drop (c.utf8Size - 1) := by
  obtain ⟨tail, htail⟩ := decode_eq_some_iff.1 h
  obtain ⟨n, hn⟩ := Nat.exists_eq_succ_of_ne_zero (Nat.ne_of_gt c.utf8Size_pos)
  have hdrop : (b :: rest).drop c.utf8Size = tail := by
    rw [← htail, ← String.length_utf8EncodeChar, List.drop_left]
  rw [hn, List.drop_succ_cons] at hdrop
  rw [hn, Nat.succ_sub_one, hdrop]
  exact htail.symm

/-- A byte that begins no character is none of ASCII. -/
private theorem le_of_decode_eq_none {b : UInt8} {rest : List UInt8}
    (h : (ByteArray.mk (b :: rest.take 3).toArray).utf8DecodeChar? 0 = none) : 0x80 ≤ b.toNat := by
  apply Nat.le_of_not_lt
  intro hb
  have hvalid : b.toNat.isValidChar := .inl (by omega)
  have hcode : (Char.ofNat b.toNat).toNat = b.toNat := by
    rw [Char.ofNat, dif_pos hvalid]
    rfl
  have hascii : String.utf8EncodeChar (Char.ofNat b.toNat) = [b] := by
    simp [String.utf8EncodeChar, hcode, Nat.le_of_lt_succ hb]
  have hbegins : String.utf8EncodeChar (Char.ofNat b.toNat) <+: b :: rest := by
    rw [hascii]
    exact List.prefix_append [b] rest
  have hsome := decode_eq_some_iff.2 hbegins
  rw [h] at hsome
  cases hsome

private theorem bytesOf?_ofByte {b : UInt8} (h : 0x80 ≤ b.toNat) :
    bytesOf? (ofByte b) = some [b] := by
  have hlt := b.toNat_lt
  have hrange : 0x480 ≤ 0x400 + b.toNat ∧ 0x400 + b.toNat < 0x500 := by omega
  simp [bytesOf?, ofByte, hrange]

private theorem bytes_readFrom (held : Nat) (bytes : List UInt8) :
    bytes? ⟨readFrom held bytes⟩ = some (bytes.drop held) := by
  induction bytes generalizing held with
  | nil => cases held <;> rfl
  | cons b rest ih =>
    cases held with
    | succ held => exact ih held
    | zero =>
      rw [readFrom, List.drop_zero]
      split
      · next c hc => rw [bytes?_cons, ih, eq_encode_append hc]; rfl
      · next hnone =>
        rw [bytes?_cons, ih, bytesOf?_ofByte (le_of_decode_eq_none hnone)]; rfl

theorem bytes?_ofBytes (bytes : List UInt8) : bytes? (ofBytes bytes) = some bytes :=
  bytes_readFrom 0 bytes

theorem bytes?_canonical (name : Text) : bytes? (canonical name) = bytes? name := by
  unfold canonical
  split
  · rfl
  · cases h : bytes? name with
    | none => exact h
    | some bytes => exact bytes?_ofBytes bytes

private theorem canonical_of_bytes?_eq_none {name : Text} (h : bytes? name = none) :
    canonical name = name := by
  rw [canonical, h]
  split <;> rfl

/-- Bytes that can only begin a character do not change what is read before them. -/
private theorem readFrom_append {ending : List UInt8} (hfirst : ∀ b ∈ ending, b.IsUTF8FirstByte)
    {held : Nat} {bytes : List UInt8} (hheld : held ≤ bytes.length) :
    readFrom held (bytes ++ ending) = readFrom held bytes ++ readFrom 0 ending := by
  induction bytes generalizing held with
  | nil =>
    obtain rfl := Nat.le_zero.1 hheld
    rfl
  | cons b rest ih =>
    cases held with
    | succ held => exact ih (Nat.le_of_succ_le_succ hheld)
    | zero =>
      have hsame : (ByteArray.mk (b :: (rest ++ ending).take 3).toArray).utf8DecodeChar? 0 =
          (ByteArray.mk (b :: rest.take 3).toArray).utf8DecodeChar? 0 := by
        refine Option.ext fun c => ?_
        rw [decode_eq_some_iff, decode_eq_some_iff, ← List.cons_append]
        refine ⟨fun h => ?_, fun h => h.trans (List.prefix_append _ _)⟩
        refine List.prefix_of_prefix_length_le h (List.prefix_append _ _) (Nat.le_of_not_lt fun hlt => ?_)
        have hbyte := h.getElem hlt
        rw [List.getElem_append_right (Nat.le_refl _)] at hbyte
        have hbegins := UInt8.isUTF8FirstByte_getElem_utf8EncodeChar.1
          (hbyte ▸ hfirst _ (List.getElem_mem _))
        exact Nat.succ_ne_zero _ hbegins
      rw [List.cons_append, readFrom, readFrom, hsame]
      split
      · next c hc =>
        have hlength := (decode_eq_some_iff.1 hc).length_le
        rw [String.length_utf8EncodeChar, List.length_cons] at hlength
        rw [ih (by omega), List.cons_append]
      · rw [ih (Nat.zero_le _), List.cons_append]

/-- An ending of such bytes stays as it is when a name is read back. -/
theorem canonical_append (name : Text) {ending : String} {bytes : List UInt8}
    (hbytes : bytes? ending = some bytes) (hfirst : ∀ b ∈ bytes, b.IsUTF8FirstByte)
    (hback : ofBytes bytes = ending) : canonical (name ++ ending) = canonical name ++ ending := by
  have hstring : (name ++ (ending : Text)).string?.isSome = name.string?.isSome := by
    have hchars : (Text.ofString ending).codes.mapM CodePoint.character? = some ending.toList :=
      Text.chars?_ofChars _
    rw [Text.string?, Text.string?, Text.chars?, Text.chars?, Text.codes_append, List.mapM_append,
      hchars]
    cases name.codes.mapM CodePoint.character? <;> rfl
  rw [canonical, canonical, hstring, bytes?_append, hbytes]
  split
  · rfl
  · cases bytes? name with
    | none => rfl
    | some front =>
      refine (congrArg Text.mk (readFrom_append hfirst (Nat.zero_le _))).trans ?_
      rw [← hback]
      rfl

/-- A longer name is another one, however it is written. -/
theorem canonical_append_ne (name : Text) {ending : Text} (he : bytes? ending ≠ some []) :
    canonical (name ++ ending) ≠ canonical name := by
  intro h
  have hbytes := congrArg bytes? h
  rw [bytes?_canonical, bytes?_canonical, bytes?_append] at hbytes
  cases hname : bytes? name with
  | none =>
    have hlong : bytes? (name ++ ending) = none := by
      rw [bytes?_append, hname]
      rfl
    rw [canonical_of_bytes?_eq_none hname, canonical_of_bytes?_eq_none hlong] at h
    have hcodes := congrArg Text.codes h
    rw [Text.codes_append, List.append_right_eq_self] at hcodes
    exact he (by rw [bytes?, hcodes]; rfl)
  | some front =>
    rw [hname] at hbytes
    cases hending : bytes? ending with
    | none => simp [hending] at hbytes
    | some back =>
      simp only [hending, Option.bind_some, Option.map_some, Option.some.injEq,
        List.append_right_eq_self] at hbytes
      exact he (hbytes ▸ hending)

/-- Names that end in different bytes are different, however they are written. -/
theorem canonical_append_ne_of_suffix (front : Text) {ending name : Text} {es ns : List UInt8}
    (he : bytes? ending = some es) (hn : bytes? name = some ns) (h : ¬ es <:+ ns) :
    canonical (front ++ ending) ≠ canonical name := by
  intro heq
  have hbytes := congrArg bytes? heq
  rw [bytes?_canonical, bytes?_canonical, bytes?_append, he, hn] at hbytes
  cases hf : bytes? front with
  | none => simp [hf] at hbytes
  | some fs =>
    simp only [hf, Option.bind_some, Option.map_some, Option.some.injEq] at hbytes
    exact h ⟨fs, hbytes⟩

/-- Names that are written alike end alike. -/
theorem lastByte_eq_of_canonical_eq {a b : Text} {c c' : CodePoint} {byte byte' : UInt8}
    (ha : a.codes.getLast? = some c) (hb : b.codes.getLast? = some c')
    (hc : bytesOf? c = some [byte]) (hc' : bytesOf? c' = some [byte'])
    (h : canonical a = canonical b) : byte = byte' := by
  obtain ⟨front, hfront⟩ := List.getLast?_eq_some_iff.1 ha
  obtain ⟨front', hfront'⟩ := List.getLast?_eq_some_iff.1 hb
  have hone {c : CodePoint} {byte : UInt8} (hc : bytesOf? c = some [byte]) :
      bytes? ⟨[c]⟩ = some [byte] := by
    rw [bytes?_cons, hc]
    rfl
  have hsplit : bytes? a = (bytes? ⟨front⟩).map (· ++ [byte]) := by
    have hcut : a = (⟨front⟩ : Text) ++ (⟨[c]⟩ : Text) := congrArg Text.mk hfront
    rw [hcut, bytes?_append, hone hc]
    cases bytes? ⟨front⟩ <;> rfl
  have hsplit' : bytes? b = (bytes? ⟨front'⟩).map (· ++ [byte']) := by
    have hcut : b = (⟨front'⟩ : Text) ++ (⟨[c']⟩ : Text) := congrArg Text.mk hfront'
    rw [hcut, bytes?_append, hone hc']
    cases bytes? ⟨front'⟩ <;> rfl
  have hbytes := congrArg bytes? h
  rw [bytes?_canonical, bytes?_canonical] at hbytes
  cases hf : bytes? ⟨front⟩ with
  | none =>
    rw [hf] at hsplit
    rw [canonical_of_bytes?_eq_none hsplit, canonical_of_bytes?_eq_none (hbytes ▸ hsplit)] at h
    rw [h, hb] at ha
    cases ha
    rw [hc] at hc'
    cases hc'
    rfl
  | some bytes =>
    rw [hsplit, hsplit', hf] at hbytes
    cases hf' : bytes? ⟨front'⟩ with
    | none =>
      rw [hf'] at hbytes
      cases hbytes
    | some bytes' =>
      rw [hf'] at hbytes
      have hlast := congrArg List.getLast? (Option.some.inj hbytes)
      rw [List.getLast?_concat, List.getLast?_concat] at hlast
      exact Option.some.inj hlast

end DualImage.FileName
