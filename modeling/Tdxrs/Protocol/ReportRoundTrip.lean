import Tdxrs.Library.RecordWriting
import Tdxrs.Protocol.Encoding
import Tdxrs.Protocol.Reports

set_option relaxedAutoImplicit false
set_option autoImplicit false

/-!
# The round trips of security lists and finance reports

What a server sends for a list of securities and for the finance report of a security, and that
`parse_security_list` and `parse_finance_info` return them. The decoder of the names, which are in
GBK, is a parameter.

## Main definitions

* `Tdxrs.SecurityWire`, `Tdxrs.FinanceWire` — a security and a report as they travel;
  `Tdxrs.SecurityWire.info`, `Tdxrs.FinanceWire.info` — what is to be read of them.
* `Tdxrs.encodeSecurityList` — the response with a list; `Tdxrs.FinanceWire.encode` — the response
  with a report.

## Main results

* `Tdxrs.security_list_round_trip` — the parser returns the securities that were encoded, and those
  that are complete in a part of the response.
* `Tdxrs.parseFinanceInfoM_encode` — the parser returns the report.
-/

namespace Tdxrs

/-! ## Securities -/

/-- A security as it travels. The price is a volume word. -/
structure SecurityWire where
  code : Bytes
  volunit : ℕ
  name : Bytes
  reserved : Bytes
  decimalPoint : UInt8
  preClose : ℕ
  trailer : Bytes
  lengths : code.length = 6 ∧ name.length = 8 ∧ reserved.length = 4 ∧ trailer.length = 4
  words : volunit < 2 ^ 16 ∧ preClose < 2 ^ 32
deriving DecidableEq

namespace SecurityWire

/-- The security of a record. -/
def info (gbk : Bytes → Text) (r : SecurityWire) : SecurityInfo where
  code := decodeCode r.code
  volunit := r.volunit
  decimalPoint := r.decimalPoint
  name := trimEndNul (gbk r.name)
  preClose := getVolume r.preClose

/-- The bytes of a record. -/
def encode (r : SecurityWire) : Bytes :=
  r.code ++ (LittleEndian.toLE 2 r.volunit ++ (r.name ++ (r.reserved ++ ([r.decimalPoint] ++
    (LittleEndian.toLE 4 r.preClose ++ r.trailer)))))

@[simp] lemma length_encode (r : SecurityWire) : r.encode.length = 29 := by
  obtain ⟨hcode, hname, hreserved, htrailer⟩ := r.lengths
  simp only [encode, List.length_append, hcode, hname, hreserved, htrailer,
    LittleEndian.length_toLE, List.length_singleton]

end SecurityWire

/-- The records of a list. -/
def securityFormat : Records.Format Unit SecurityWire UInt8 where
  write _ r := r.encode
  next _ _ := ()

/-- The response with a list of securities. -/
def encodeSecurityList (rs : List SecurityWire) : Bytes :=
  LittleEndian.toLE 2 rs.length ++ securityFormat.bytes () rs

section

variable {m : Type → Type} [Monad m] [LawfulMonad m] {M : Machine m}

omit [LawfulMonad m] in
/-- What stands at a position is what is read there. -/
lemma slice_of_drop (hM : M.InRange) {body a rest : Bytes} {pos w : ℕ}
    (h : body.drop pos = a ++ rest) (ha : a.length = w) (hw : 0 < w) :
    M.slice body pos w = pure a := by
  have hend := le_length_of_drop h (ha ▸ hw)
  rw [ha] at hend
  rw [hM.slice hend]
  exact congrArg pure ((congrArg (List.take w) h).trans (List.take_left' ha))

omit [LawfulMonad m] in
/-- The byte at a position. -/
lemma index_of_drop (hM : M.InRange) {body rest : Bytes} {pos : ℕ} {b : UInt8}
    (h : body.drop pos = [b] ++ rest) : M.index body pos = pure b := by
  have hend := le_length_of_drop h Nat.one_pos
  rw [List.length_singleton] at hend
  have hget : body.getD pos 0 = b := by
    rw [List.getD_eq_getElem?_getD, ← List.head?_drop, h]
    rfl
  rw [hM.index (by omega), hget]

/-- **A record is read back** on every machine.

**Proof sketch.** The parts of a record have fixed lengths, so each stands where the parser looks
for it (`drop_add`); a volume word is decoded on every machine (`getVolumeM_eq`). -/
lemma reads_security (hM : M.InRange) (gbk : Bytes → Text) (body : Bytes) :
    securityFormat.Reads (fun _ r => r.info gbk) (fun _ _ => True) id body
      (fun pos _ => parseSecurityInfoM M gbk body pos) := by
  intro pos _ r rest _ hdrop
  obtain ⟨hcode, hname, hreserved, htrailer⟩ := r.lengths
  obtain ⟨hvolunit, hpreClose⟩ := r.words
  simp only [securityFormat, SecurityWire.encode, List.append_assoc] at hdrop
  have h1 := drop_add hdrop
  have h2 := drop_add h1
  have h3 := drop_add h2
  have h4 := drop_add h3
  have h5 := drop_add h4
  simp only [hcode, hname, hreserved, LittleEndian.length_toLE, List.length_singleton,
    Nat.add_assoc, Nat.reduceAdd] at h1 h2 h3 h4 h5
  have hvolume := getVolumeM_eq hM (readU32_lt body (pos + 21))
  rw [readU32_of_drop h5 hpreClose] at hvolume
  change parseSecurityInfoM M gbk body pos = _
  rw [parseSecurityInfoM, slice_of_drop hM hdrop hcode (by decide), pure_bind,
    slice_of_drop hM h2 hname (by decide), pure_bind, index_of_drop hM h4, pure_bind,
    readU32_of_drop h5 hpreClose, hvolume, pure_bind, readU16_of_drop h1 hvolunit]
  refine congrArg pure (congrArg some (Prod.ext rfl (Prod.ext ?_ rfl)))
  simp only [securityFormat, r.length_encode]

/-- What the parser returns of a part of a response, on every machine.

**Proof sketch.** Of the records, a part of the response holds those that are complete, and fewer
bytes than one has (`Records.Format.take_bytes`). The loop reads these back
(`Records.Format.loopM_bytes` with `reads_security`) and stops at the bytes that are left, because
the guard is the length of a record. -/
lemma parseSecurityListM_take (hM : M.InRange) (gbk : Bytes → Text) {rs : List SecurityWire}
    (hlen : rs.length < 2 ^ 16) {cut : ℕ} (hcut : 2 ≤ cut) :
    parseSecurityListM M gbk ((encodeSecurityList rs).take cut) =
      pure (.ok ((rs.take ((cut - 2) / 29)).map (SecurityWire.info gbk))) := by
  have hwidth (s : Unit) (r : SecurityWire) : (securityFormat.write s r).length = 29 :=
    r.length_encode
  obtain ⟨n, rfl⟩ := Nat.exists_eq_add_of_le hcut
  obtain ⟨rest, hrest, htake⟩ := Records.Format.take_bytes hwidth (by decide) rs () n
  set body := (encodeSecurityList rs).take (2 + n) with hdef
  have hbody : body.drop 0 =
      LittleEndian.toLE 2 rs.length ++ (securityFormat.bytes () (rs.take (n / 29)) ++ rest) := by
    have hprefix : 2 + n = (LittleEndian.toLE 2 rs.length).length + n := by
      rw [LittleEndian.length_toLE]
    rw [List.drop_zero, hdef, encodeSecurityList, hprefix, List.take_length_add_append, htake]
  have hend := le_length_of_drop hbody (by simp)
  have hrecords := drop_add hbody
  rw [LittleEndian.length_toLE, Nat.zero_add] at hrecords hend
  obtain ⟨more, hmore⟩ := Nat.exists_eq_add_of_le (List.length_take_le' (n / 29) rs)
  have hloop := Records.Format.loopM_bytes (reads_security hM gbk body) (by decide)
    (fun s r _ => (hwidth s r).ge) more (.inr hrest)
    (Records.Format.along_of_forall (fun _ _ _ => trivial) (fun _ _ => trivial) ()) hrecords
  rw [parseSecurityListM, if_neg (by omega), readU16_of_drop hbody hlen, hmore]
  refine (congrArg (· >>= _) hloop).trans ?_
  rw [pure_bind, Records.Format.values_eq_map, Nat.add_sub_cancel_left]

/-- The whole response is read back on every machine. -/
lemma parseSecurityListM_encode (hM : M.InRange) (gbk : Bytes → Text) {rs : List SecurityWire}
    (hlen : rs.length < 2 ^ 16) :
    parseSecurityListM M gbk (encodeSecurityList rs) =
      pure (.ok (rs.map (SecurityWire.info gbk))) := by
  have hlength : (encodeSecurityList rs).length = 2 + 29 * rs.length := by
    have hbytes := Records.Format.length_bytes (F := securityFormat) (fun _ r => r.length_encode) rs
      ()
    rw [encodeSecurityList, List.length_append, LittleEndian.length_toLE, hbytes]
  have hall := parseSecurityListM_take hM gbk hlen (show 2 ≤ 2 + 29 * rs.length by omega)
  rwa [← hlength, List.take_length, hlength, Nat.add_sub_cancel_left,
    Nat.mul_div_cancel_left _ (by decide), List.take_length] at hall

end

/-- **The round trip of security lists.** Up to 65535 securities are what the parser returns of
them, with and without overflow checks; and a part of the response that reaches behind the count
gives exactly the securities that are complete in it.

**Proof sketch.** `parseSecurityListM_encode` for the whole response and `parseSecurityListM_take`
for its parts, each for a machine that wraps and for one that checks. -/
theorem security_list_round_trip (gbk : Bytes → Text) (rs : List SecurityWire)
    (hlen : rs.length ≤ 65535) :
    parseSecurityList gbk (encodeSecurityList rs) = .ok (rs.map (SecurityWire.info gbk)) ∧
      parseSecurityListM Machine.checked gbk (encodeSecurityList rs) =
        .ok (.ok (rs.map (SecurityWire.info gbk))) ∧
      ∀ cut, 2 ≤ cut →
        parseSecurityList gbk ((encodeSecurityList rs).take cut) =
            .ok ((rs.take ((cut - 2) / 29)).map (SecurityWire.info gbk)) ∧
          parseSecurityListM Machine.checked gbk ((encodeSecurityList rs).take cut) =
            .ok (.ok ((rs.take ((cut - 2) / 29)).map (SecurityWire.info gbk))) := by
  have hlen' : rs.length < 2 ^ 16 := by omega
  exact ⟨parseSecurityListM_encode inRange_wrapping gbk hlen',
    parseSecurityListM_encode inRange_checked gbk hlen',
    fun cut hcut => ⟨parseSecurityListM_take inRange_wrapping gbk hlen' hcut,
      parseSecurityListM_take inRange_checked gbk hlen' hcut⟩⟩

/-- Two securities, of which the second is cut off. -/
theorem security_list_round_trip_cut :
    let rs : List SecurityWire :=
      [⟨[0x30, 0x30, 0x30, 0x30, 0x30, 0x31], 100, [0x50, 0x41, 0x42] ++ List.replicate 5 0,
          List.replicate 4 7, 2, 0x4228999A, List.replicate 4 0, by decide, by decide⟩,
        ⟨[0x30, 0x30, 0x30, 0x30, 0x30, 0x32], 100, [0x56] ++ List.replicate 7 0,
          List.replicate 4 7, 2, 0, List.replicate 4 0, by decide, by decide⟩]
    parseSecurityList asciiText ((encodeSecurityList rs).take 59) =
        .ok ((rs.take ((59 - 2) / 29)).map (SecurityWire.info asciiText)) ∧
      (rs.take ((59 - 2) / 29)).map (fun r => (decodeCode r.code, (r.info asciiText).name)) =
        [("000001".toList, "PAB".toList)] :=
  ⟨((security_list_round_trip asciiText _ (by decide)).2.2 59 (by decide)).1, by decide +kernel⟩

/-! ## Finance reports -/

/-- A finance report as it travels: 31 numbers in single precision and four others. The header is
not read. -/
structure FinanceWire where
  header : Bytes
  liutongguben : ℕ
  province : ℕ
  industry : ℕ
  updatedDate : ℕ
  ipoDate : ℕ
  singles : List ℕ
  lengths : header.length = 9 ∧ singles.length = 30
  words : province < 2 ^ 16 ∧ industry < 2 ^ 16 ∧ updatedDate < 2 ^ 32 ∧ ipoDate < 2 ^ 32
  numbers : liutongguben < 2 ^ 32 ∧ ∀ word ∈ singles, word < 2 ^ 32

namespace FinanceWire

variable (r : FinanceWire)

/-- One of the thirty numbers. -/
def single (i : ℕ) : Single := (r.singles.map Single.ofBits).getD i .nan

/-- The report of a security. The last number is not used. -/
def info (market : UInt8) (code : Text) : FinanceInfo where
  market := market
  code := code
  liutongguben := Single.ofBits r.liutongguben
  province := r.province
  industry := r.industry
  updatedDate := r.updatedDate
  ipoDate := r.ipoDate
  zongguben := r.single 0
  guojiagu := r.single 1
  faqirenfarengu := r.single 2
  farengu := r.single 3
  bgu := r.single 4
  hgu := r.single 5
  zhigonggu := r.single 6
  zongzichan := r.single 7
  liudongzichan := r.single 8
  gudingzichan := r.single 9
  wuxingzichan := r.single 10
  gudongrenshu := r.single 11
  liudongfuzhai := r.single 12
  changqifuzhai := r.single 13
  zibengongjijin := r.single 14
  jingzichan := r.single 15
  zhuyingshouru := r.single 16
  zhuyinglirun := r.single 17
  yingshouzhangkuan := r.single 18
  yingyelirun := r.single 19
  touzishouyu := r.single 20
  jingyingxianjinliu := r.single 21
  zongxianjinliu := r.single 22
  cunhuo := r.single 23
  lirunzonghe := r.single 24
  shuihoulirun := r.single 25
  jinglirun := r.single 26
  weifenpeilirun := r.single 27
  meigujingzichan := r.single 28

/-- The response with a report. -/
def encode : Bytes :=
  r.header ++ (LittleEndian.toLE 4 r.liutongguben ++ (LittleEndian.toLE 2 r.province ++
    (LittleEndian.toLE 2 r.industry ++ (LittleEndian.toLE 4 r.updatedDate ++
      (LittleEndian.toLE 4 r.ipoDate ++ r.singles.flatMap (LittleEndian.toLE 4))))))

/-- The number of bytes of a report, which is what the parser asks for. -/
lemma length_encode : r.encode.length = 9 + 136 := by
  obtain ⟨hheader, hsingles⟩ := r.lengths
  have hwords : (r.singles.flatMap (LittleEndian.toLE 4)).length = 30 * 4 := by
    rw [List.length_flatMap, List.map_congr_left fun n _ => LittleEndian.length_toLE 4 n,
      List.map_const', List.sum_replicate, hsingles, smul_eq_mul]
  simp only [encode, List.length_append, hheader, LittleEndian.length_toLE, hwords]

end FinanceWire

section

variable {m : Type → Type} [Monad m] [LawfulMonad m] {M : Machine m}

/-- A number in single precision at a position. -/
lemma readSingleM_of_drop (hM : M.InRange) {body rest : Bytes} {pos n : ℕ}
    (h : body.drop pos = LittleEndian.toLE 4 n ++ rest) (hn : n < 2 ^ 32) :
    readSingleM M body pos = pure (Single.ofBits n) := by
  have hend := le_length_of_drop h (by simp)
  rw [LittleEndian.length_toLE] at hend
  have hword := LittleEndian.field_four hend
  have hread := readU32_of_drop h hn
  rw [readU32, if_neg (by omega)] at hread
  rw [readSingleM_eq hM hend, ← hread, ← hword]
  rfl

/-- Numbers in single precision, one after the other. By induction on the numbers: each stands where
the one before it ends. -/
lemma readSinglesM_of_drop (hM : M.InRange) {body : Bytes} {words : List ℕ} :
    ∀ {pos : ℕ}, (∀ word ∈ words, word < 2 ^ 32) →
      body.drop pos = words.flatMap (LittleEndian.toLE 4) →
      readSinglesM M body words.length pos = pure (words.map Single.ofBits) := by
  induction words with
  | nil => exact fun _ _ => rfl
  | cons word words ih =>
    intro pos hwords h
    obtain ⟨hword, hwords⟩ := List.forall_mem_cons.mp hwords
    rw [List.flatMap_cons] at h
    have hrest := drop_add h
    rw [LittleEndian.length_toLE] at hrest
    rw [List.length_cons, readSinglesM, readSingleM_of_drop hM h hword, pure_bind, ih hwords hrest,
      pure_bind]
    rfl

/-- **A finance report is read back** on every machine, for the security it was asked for.

**Proof sketch.** All parts have fixed lengths: each word is read where it stands, and the thirty
numbers in single precision behind them by `readSinglesM_of_drop`. -/
theorem parseFinanceInfoM_encode (hM : M.InRange) (r : FinanceWire) (market : UInt8) (code : Text) :
    parseFinanceInfoM M r.encode market code = pure (.ok (r.info market code)) := by
  obtain ⟨hheader, hsingles⟩ := r.lengths
  obtain ⟨hprovince, hindustry, hupdated, hipo⟩ := r.words
  have hzero : r.encode.drop 0 = r.header ++ _ := rfl
  have h1 := drop_add hzero
  have h2 := drop_add h1
  have h3 := drop_add h2
  have h4 := drop_add h3
  have h5 := drop_add h4
  have h6 := drop_add h5
  simp only [hheader, LittleEndian.length_toLE, Nat.reduceAdd] at h1 h2 h3 h4 h5 h6
  have hnumbers := readSinglesM_of_drop hM r.numbers.2 h6
  rw [hsingles] at hnumbers
  rw [parseFinanceInfoM, if_neg r.length_encode.not_lt, readSingleM_of_drop hM h1 r.numbers.1,
    pure_bind, hnumbers, pure_bind, readU16_of_drop h2 hprovince, readU16_of_drop h3 hindustry,
    readU32_of_drop h4 hupdated, readU32_of_drop h5 hipo]
  rfl

end

end Tdxrs
