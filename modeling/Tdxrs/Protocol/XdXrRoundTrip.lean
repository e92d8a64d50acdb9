import Tdxrs.Library.RecordWriting
import Tdxrs.Protocol.Encoding
import Tdxrs.Protocol.Reports

set_option relaxedAutoImplicit false
set_option autoImplicit false

/-!
# The round trip of corporate actions

What a server sends for the corporate actions of a security, and that `parse_xdxr_info` returns
them. A record has 29 bytes, of which the last sixteen are four words whose meaning depends on the
category. Since all records are of one length, a part of a response gives exactly the records that
are complete in it.

## Main definitions

* `Tdxrs.XdXrWire` — a corporate action as it travels; `Tdxrs.XdXrWire.record` — what is to be read
  of it.
* `Tdxrs.encodeXdXrInfo` — the response.

## Main results

* `Tdxrs.reads_xdxr` — a record is read back.
* `Tdxrs.xdxr_round_trip` — the parser returns the actions that were encoded, and those that are
  complete in a part of the response.
-/

namespace Tdxrs

/-! ## Records -/

/-- A corporate action as it travels. -/
structure XdXrWire where
  skipped : Bytes
  year : ℕ
  month : ℕ
  day : ℕ
  category : UInt8
  payload : Bytes
  skipped_length : skipped.length = 8
  date_fits : month < 100 ∧ day < 100 ∧ dateKey year month day < 2 ^ 32
  payload_length : payload.length = 16
deriving DecidableEq

namespace XdXrWire

variable (r : XdXrWire)

/-- A word of the payload. -/
def word (i : ℕ) : ℕ := LittleEndian.field r.payload (4 * i) 4

/-- A word as a number in single precision, which only some categories have. -/
def single (has : Prop) [Decidable has] (i : ℕ) : Option Single :=
  if has then some (Single.ofBits (r.word i)) else none

/-- A word as a share capital, which only some categories have. -/
def capital (has : Prop) [Decidable has] (i : ℕ) : Option ℚ :=
  if has then some (getVolume (r.word i)) else none

/-- The action is a change of the share capital: none of the categories with other data. -/
def ChangesCapital : Prop := ¬ r.category.toNat ∈ [1, 11, 12, 13, 14]

instance : Decidable r.ChangesCapital := inferInstanceAs (Decidable (¬ _))

/-- The corporate action of a record. -/
def record : XdXrRecord where
  year := r.year
  month := r.month
  day := r.day
  category := r.category.toNat
  name := (xdxrName r.category.toNat).toList
  fenhong := r.single (r.category = 1) 0
  peigujia := r.single (r.category = 1) 1
  songzhuangu := r.single (r.category = 1) 2
  peigu := r.single (r.category = 1) 3
  suogu := r.single (r.category = 11 ∨ r.category = 12) 2
  panqianliutong := r.capital r.ChangesCapital 0
  qianzongguben := r.capital r.ChangesCapital 1
  panhouliutong := r.capital r.ChangesCapital 2
  houzongguben := r.capital r.ChangesCapital 3
  xingquanjia := r.single (r.category = 13 ∨ r.category = 14) 0
  fenshu := r.single (r.category = 13 ∨ r.category = 14) 2

/-- The bytes of a record. -/
def encode : Bytes :=
  r.skipped ++ (LittleEndian.toLE 4 (dateKey r.year r.month r.day) ++ ([r.category] ++ r.payload))

@[simp] lemma length_encode : r.encode.length = 29 := by
  simp only [encode, List.length_append, r.skipped_length, LittleEndian.length_toLE,
    List.length_singleton, r.payload_length]

end XdXrWire

/-- The records of a response. -/
def xdxrFormat : Records.Format Unit XdXrWire UInt8 where
  write _ r := r.encode
  next _ _ := ()

/-- The response with the corporate actions of a security: the `header` is not read. -/
def encodeXdXrInfo (header : Bytes) (rs : List XdXrWire) : Bytes :=
  header ++ (LittleEndian.toLE 2 rs.length ++ xdxrFormat.bytes () rs)

/-! ## Reading records back -/

section

variable {m : Type → Type} [Monad m] [LawfulMonad m] {M : Machine m}

/-- A number in single precision is a word. -/
lemma readSingleM_word (hM : M.InRange) (r : XdXrWire) {i : ℕ} (hi : i < 4) :
    readSingleM M r.payload (4 * i) = pure (Single.ofBits (r.word i)) := by
  have hpayload := r.payload_length
  have hword := LittleEndian.field_four (show 4 * i + 4 ≤ r.payload.length by omega)
  rw [readSingleM_eq hM (by omega), XdXrWire.word, ← hword]
  rfl

/-- A share capital is a volume word. -/
lemma shareCapitalM_word (hM : M.InRange) (r : XdXrWire) {i : ℕ} (hi : i < 4) :
    shareCapitalM M r.payload (4 * i) = pure (getVolume (r.word i)) := by
  have hpayload := r.payload_length
  have hread : readU32 r.payload (4 * i) = r.word i := by
    rw [readU32, if_neg (by omega), XdXrWire.word]
  have hzero : getVolume 0 = 0 := if_pos rfl
  rw [shareCapitalM, hread]
  split
  · rename_i hword
    rw [hword, hzero]
  · rw [← hread, getVolumeM_eq hM (readU32_lt _ _)]

/-- **The data of a record** are those of its category, each from its own word.

**Proof sketch.** By the category, in the order in which the code asks: dividends have four numbers,
splits one, warrants two, and all others four words of capital. Each is read from its own word of
the sixteen bytes (`readSingleM_word`, `shareCapitalM_word`). -/
lemma xdxrDataM_payload (hM : M.InRange) (r : XdXrWire) :
    xdxrDataM M r.payload
        { year := r.year, month := r.month, day := r.day
          category := r.category.toNat
          name := (xdxrName r.category.toNat).toList
          fenhong := none, peigujia := none, songzhuangu := none, peigu := none, suogu := none
          panqianliutong := none, panhouliutong := none, qianzongguben := none
          houzongguben := none, fenshu := none, xingquanjia := none } =
      pure r.record := by
  have hsingle {i : ℕ} (hi : i < 4) := readSingleM_word hM r hi
  have hcapital {i : ℕ} (hi : i < 4) := shareCapitalM_word hM r hi
  have hcategory (n : UInt8) : r.category = n ↔ r.category.toNat = n.toNat := UInt8.toNat_inj.symm
  have hchanges : r.ChangesCapital ↔ r.category.toNat ∉ [1, 11, 12, 13, 14] := Iff.rfl
  simp only [List.mem_cons, List.not_mem_nil, or_false, not_or] at hchanges
  unfold xdxrDataM
  simp only [XdXrWire.record, XdXrWire.single, XdXrWire.capital, hcategory, hchanges,
    UInt8.reduceToNat]
  by_cases hdividend : r.category.toNat = 1
  · simp only [if_pos hdividend, hsingle (by decide : 0 < 4), hsingle (by decide : 1 < 4),
      hsingle (by decide : 2 < 4), hsingle (by decide : 3 < 4), pure_bind]
    simp [hdividend]
  · by_cases hshrink : r.category.toNat = 11 ∨ r.category.toNat = 12
    · simp only [if_neg hdividend, if_pos hshrink, hsingle (by decide : 2 < 4), pure_bind]
      rcases hshrink with h | h <;> simp [h]
    · by_cases hwarrant : r.category.toNat = 13 ∨ r.category.toNat = 14
      · simp only [if_neg hdividend, if_neg hshrink, if_pos hwarrant, hsingle (by decide : 0 < 4),
          hsingle (by decide : 2 < 4), pure_bind]
        rcases hwarrant with h | h <;> simp [h]
      · simp only [if_neg hdividend, if_neg hshrink, if_neg hwarrant, hcapital (by decide : 0 < 4),
          hcapital (by decide : 1 < 4), hcapital (by decide : 2 < 4), hcapital (by decide : 3 < 4),
          pure_bind]
        rw [not_or] at hshrink hwarrant
        simp [hdividend, hshrink, hwarrant]

/-- **A record is read back** on every machine.

**Proof sketch.** A record is eight bytes that are skipped, the date, the category and sixteen bytes
of data. Month and day have two digits each, so that the date is read back from its digits;
`xdxrDataM_payload` reads the data. -/
lemma reads_xdxr (hM : M.InRange) (body : Bytes) :
    xdxrFormat.Reads (fun _ r => r.record) (fun _ _ => True) id body
      (fun pos _ => parseXdXrRecordM M body pos) := by
  intro pos _ r rest _ hdrop
  simp only [xdxrFormat, XdXrWire.encode, List.append_assoc] at hdrop
  have hdate := drop_add hdrop
  have hcategory := drop_add hdate
  have hpayload := drop_add hcategory
  rw [r.skipped_length] at hdate hcategory hpayload
  rw [LittleEndian.length_toLE] at hcategory hpayload
  rw [List.length_singleton] at hpayload
  have hend := le_length_of_drop hpayload (by rw [r.payload_length]; decide)
  rw [r.payload_length] at hend
  obtain ⟨hmonth, hday, hfits⟩ := r.date_fits
  have hnumber : getDatetime 9 body (pos + 8) = (r.year, r.month, r.day, 0, 0, pos + 8 + 4) := by
    have hlayout : isMinuteCategory 9 = false := by decide
    rw [getDatetime, hlayout, if_neg Bool.false_ne_true, readU32_of_drop hdate hfits]
    simp only [dateKey, Prod.mk.injEq, and_true]
    refine ⟨?_, ?_, ?_⟩ <;> omega
  have hindex : M.index body (pos + 8 + 4) = pure r.category := by
    have hget : body.getD (pos + 8 + 4) 0 = r.category := by
      rw [List.getD_eq_getElem?_getD, ← List.head?_drop, hcategory]
      rfl
    rw [hM.index (by omega), hget]
  have hslice : M.slice body (pos + 8 + 4 + 1) 16 = pure r.payload := by
    have htake : (r.payload ++ rest).take 16 = r.payload := List.take_left' r.payload_length
    rw [hM.slice hend]
    exact congrArg pure ((congrArg (List.take 16) hpayload).trans htake)
  unfold parseXdXrRecordM
  simp only [hnumber, hindex, pure_bind]
  rw [if_pos hend, hslice, pure_bind, xdxrDataM_payload hM, pure_bind]
  refine congrArg pure (congrArg some (Prod.ext rfl (Prod.ext ?_ rfl)))
  simp only [xdxrFormat, r.length_encode]

end

/-! ## The round trip -/

/-- What the parser returns of a part of a response.

**Proof sketch.** As `parseSecurityListM_take`: a part of the response holds the records that are
complete in it and fewer bytes than one more (`Records.Format.take_bytes`), and the loop, which asks
for all bytes of a record, reads exactly these (`reads_xdxr`). -/
lemma parseXdXrInfo_take {header : Bytes} (hheader : header.length = 9) {rs : List XdXrWire}
    (hlen : rs.length < 2 ^ 16) {cut : ℕ} (hcut : 11 ≤ cut) :
    parseXdXrInfo ((encodeXdXrInfo header rs).take cut) =
      .ok ((rs.take ((cut - 11) / 29)).map XdXrWire.record) := by
  have hwidth (s : Unit) (r : XdXrWire) : (xdxrFormat.write s r).length = 29 := r.length_encode
  obtain ⟨n, rfl⟩ := Nat.exists_eq_add_of_le hcut
  obtain ⟨rest, hrest, htake⟩ := Records.Format.take_bytes hwidth (by decide) rs () n
  set body := (encodeXdXrInfo header rs).take (11 + n) with hdef
  have hbody : body.drop 0 = header ++
      (LittleEndian.toLE 2 rs.length ++ (xdxrFormat.bytes () (rs.take (n / 29)) ++ rest)) := by
    have hprefix : 11 + n = (header ++ LittleEndian.toLE 2 rs.length).length + n := by
      rw [List.length_append, LittleEndian.length_toLE, hheader]
    rw [List.drop_zero, hdef, encodeXdXrInfo, ← List.append_assoc, hprefix,
      List.take_length_add_append, htake, List.append_assoc]
  have hcount := drop_add hbody
  have hrecords := drop_add hcount
  have hend := le_length_of_drop hcount (by simp)
  rw [Nat.zero_add, hheader] at hcount hrecords hend
  rw [LittleEndian.length_toLE] at hrecords hend
  obtain ⟨more, hmore⟩ := Nat.exists_eq_add_of_le (List.length_take_le' (n / 29) rs)
  have hloop := Records.Format.loopM_bytes (reads_xdxr inRange_wrapping body) (by decide)
    (fun s r _ => (hwidth s r).ge) more (.inr hrest)
    (Records.Format.along_of_forall (fun _ _ _ => trivial) (fun _ _ => trivial) ()) hrecords
  rw [parseXdXrInfo, parseXdXrInfoM, if_neg (by omega), readU16_of_drop hcount hlen, hmore]
  refine (congrArg (· >>= _) hloop).trans ?_
  rw [pure_bind, Records.Format.values_eq_map, Nat.add_sub_cancel_left]
  rfl

/-- **The round trip of corporate actions.** Up to 65535 actions, encoded behind any nine bytes, are
what the parser returns, with and without overflow checks; and a part of the response that reaches
behind the count gives exactly the actions that are complete in it.

**Proof sketch.** A cut at the end of the response leaves all records, so `parseXdXrInfo_take` gives
the whole and every part of it. On words within the body the machine that checks computes the same
(`parseXdXrInfoM_eq`). -/
theorem xdxr_round_trip (header : Bytes) (hheader : header.length = 9) (rs : List XdXrWire)
    (hlen : rs.length ≤ 65535) :
    parseXdXrInfo (encodeXdXrInfo header rs) = .ok (rs.map XdXrWire.record) ∧
      parseXdXrInfoM Machine.checked (encodeXdXrInfo header rs) =
        .ok (.ok (rs.map XdXrWire.record)) ∧
      ∀ cut, 11 ≤ cut →
        parseXdXrInfo ((encodeXdXrInfo header rs).take cut) =
            .ok ((rs.take ((cut - 11) / 29)).map XdXrWire.record) ∧
          parseXdXrInfoM Machine.checked ((encodeXdXrInfo header rs).take cut) =
            .ok (.ok ((rs.take ((cut - 11) / 29)).map XdXrWire.record)) := by
  have hpart {cut : ℕ} (hcut : 11 ≤ cut) :=
    parseXdXrInfo_take hheader (by omega : rs.length < 2 ^ 16) hcut
  have hwhole : parseXdXrInfo (encodeXdXrInfo header rs) = .ok (rs.map XdXrWire.record) := by
    have hlength : (encodeXdXrInfo header rs).length = 11 + 29 * rs.length := by
      have hbytes := Records.Format.length_bytes (F := xdxrFormat) (fun _ r => r.length_encode) rs
        ()
      simp only [encodeXdXrInfo, List.length_append, hheader, LittleEndian.length_toLE, hbytes]
      omega
    have hall := hpart (show 11 ≤ 11 + 29 * rs.length by omega)
    rwa [← hlength, List.take_length, hlength, Nat.add_sub_cancel_left,
      Nat.mul_div_cancel_left _ (by decide), List.take_length] at hall
  refine ⟨hwhole, ?_, fun cut hcut => ⟨hpart hcut, ?_⟩⟩
  · rw [parseXdXrInfoM_eq inRange_checked, hwhole]
    rfl
  · rw [parseXdXrInfoM_eq inRange_checked, hpart hcut]
    rfl

/-- A dividend and a change of the share capital, of which the second is cut off. -/
theorem xdxr_round_trip_cut :
    let rs : List XdXrWire :=
      [⟨List.replicate 8 7, 2024, 6, 19, 1, LittleEndian.toLE 4 0x40000000 ++ List.replicate 12 0,
          rfl, by decide, by decide⟩,
        ⟨List.replicate 8 0, 2024, 7, 1, 5, List.replicate 16 0x45, rfl, by decide, by decide⟩]
    (∀ cut, 11 ≤ cut →
        parseXdXrInfo ((encodeXdXrInfo (List.replicate 9 0) rs).take cut) =
            .ok ((rs.take ((cut - 11) / 29)).map XdXrWire.record) ∧
          parseXdXrInfoM Machine.checked ((encodeXdXrInfo (List.replicate 9 0) rs).take cut) =
            .ok (.ok ((rs.take ((cut - 11) / 29)).map XdXrWire.record))) ∧
      ((rs.take ((68 - 11) / 29)).map XdXrWire.record) =
        [⟨2024, 6, 19, 1, "除权除息".toList, some (.finite 2), some (.finite 0), some (.finite 0),
          some (.finite 0), none, none, none, none, none, none, none⟩] :=
  ⟨(xdxr_round_trip (List.replicate 9 0) rfl _ (by decide)).2.2, by decide +kernel⟩

end Tdxrs
