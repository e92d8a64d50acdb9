import Tdxrs.Protocol.Codes
import Tdxrs.Protocol.Fields

set_option relaxedAutoImplicit false
set_option autoImplicit false

/-!
# Parsing records of fixed length

`parse_security_list`, `parse_finance_info` and `parse_xdxr_info` of `src/protocol/parsers.rs`.
Their records have a fixed number of bytes, which is checked before a record is read. The names in
a security list are in GBK; the decoder comes from a library and is the parameter `gbk`.

## Main definitions

* `Tdxrs.SecurityInfo`, `Tdxrs.FinanceInfo`, `Tdxrs.XdXrRecord` — the records.
* `Tdxrs.parseSecurityListM`, `Tdxrs.parseFinanceInfoM`, `Tdxrs.parseXdXrInfoM` — the parsers, on a
  machine.

## Main results

* `Tdxrs.parseSecurityListM_eq`, `Tdxrs.parseFinanceInfoM_eq`, `Tdxrs.parseXdXrInfoM_eq` — the
  parsers do not panic, and give the same on every machine.
-/

namespace Tdxrs

/-! ## Records -/

/-- A security of the list. -/
structure SecurityInfo where
  code : Text
  volunit : ℕ
  decimalPoint : UInt8
  name : Text
  preClose : ℚ
deriving DecidableEq

/-- The finance report of a security. -/
structure FinanceInfo where
  market : UInt8
  code : Text
  liutongguben : Single
  province : ℕ
  industry : ℕ
  updatedDate : ℕ
  ipoDate : ℕ
  zongguben : Single
  guojiagu : Single
  faqirenfarengu : Single
  farengu : Single
  bgu : Single
  hgu : Single
  zhigonggu : Single
  zongzichan : Single
  liudongzichan : Single
  gudingzichan : Single
  wuxingzichan : Single
  gudongrenshu : Single
  liudongfuzhai : Single
  changqifuzhai : Single
  zibengongjijin : Single
  jingzichan : Single
  zhuyingshouru : Single
  zhuyinglirun : Single
  yingshouzhangkuan : Single
  yingyelirun : Single
  touzishouyu : Single
  jingyingxianjinliu : Single
  zongxianjinliu : Single
  cunhuo : Single
  lirunzonghe : Single
  shuihoulirun : Single
  jinglirun : Single
  weifenpeilirun : Single
  meigujingzichan : Single
deriving DecidableEq

/-- A corporate action as the parser returns it. The adjustment of prices works on the part
`XdXrInfo` of it. -/
structure XdXrRecord where
  year : ℕ
  month : ℕ
  day : ℕ
  category : ℕ
  name : Text
  fenhong : Option Single
  peigujia : Option Single
  songzhuangu : Option Single
  peigu : Option Single
  suogu : Option Single
  panqianliutong : Option ℚ
  panhouliutong : Option ℚ
  qianzongguben : Option ℚ
  houzongguben : Option ℚ
  fenshu : Option Single
  xingquanjia : Option Single
deriving DecidableEq

/-- The name of a category of corporate actions. -/
def xdxrName : ℕ → String
  | 1 => "除权除息"
  | 2 => "送配股上市"
  | 3 => "非流通股上市"
  | 4 => "未知股本变动"
  | 5 => "股本变化"
  | 6 => "增发新股"
  | 7 => "股份回购"
  | 8 => "增发新股上市"
  | 9 => "转配股上市"
  | 10 => "可转债上市"
  | 11 => "扩缩股"
  | 12 => "非流通股缩股"
  | 13 => "送认购权证"
  | 14 => "送认沽权证"
  | _ => "未知"

/-! ## The parsers on a machine -/

section

variable {m : Type → Type} [Monad m] (M : Machine m)

/-- A record of the security list. -/
def parseSecurityInfoM (gbk : Bytes → Text) (body : Bytes) (pos : ℕ) :
    m (Option (SecurityInfo × ℕ × Unit)) := do
  let codeBytes ← M.slice body pos 6
  let volunit := readU16 body (pos + 6)
  let nameBytes ← M.slice body (pos + 8) 8
  -- four bytes are skipped before the decimals, and four at the end
  let decimalPoint ← M.index body (pos + 20)
  let preClose ← getVolumeM M (readU32 body (pos + 21))
  pure (some
    ({ code := decodeCode codeBytes
       volunit
       decimalPoint
       name := trimEndNul (gbk nameBytes)
       preClose },
      pos + 29, ()))

/-- Parses a security list, on a machine. -/
def parseSecurityListM (gbk : Bytes → Text) (body : Bytes) :
    m (Except TdxError (List SecurityInfo)) :=
  if body.length < 2 then pure (.error (ErrorCode.responseLengthMismatch.err "body too short"))
  else do
    let result ← Records.loopM body.length 29 (fun pos _ => parseSecurityInfoM M gbk body pos)
      (readU16 body 0) 2 ()
    pure (.ok result)

/-- A number in single precision, read byte by byte. -/
def readSingleM (data : Bytes) (pos : ℕ) : m Single := do
  let b0 ← M.index data pos
  let b1 ← M.index data (pos + 1)
  let b2 ← M.index data (pos + 2)
  let b3 ← M.index data (pos + 3)
  pure (Single.ofBits (LittleEndian.ofLE [b0, b1, b2, b3]))

/-- Numbers in single precision one after the other. -/
def readSinglesM (data : Bytes) : ℕ → ℕ → m (List Single)
  | 0, _ => pure []
  | count + 1, pos => do
    let val ← readSingleM M data pos
    let vals ← readSinglesM data count (pos + 4)
    pure (val :: vals)

/-- Parses a finance report, on a machine. The last of its numbers is not used. -/
def parseFinanceInfoM (body : Bytes) (market : UInt8) (code : Text) :
    m (Except TdxError FinanceInfo) :=
  if body.length < 9 + 136 then
    pure (.error (ErrorCode.responseLengthMismatch.err "body too short for finance info"))
  else do
    let liutongguben ← readSingleM M body 9
    let fields ← readSinglesM M body 30 25
    let field (i : ℕ) : Single := fields.getD i .nan
    pure (.ok
      { market, code, liutongguben
        province := readU16 body 13
        industry := readU16 body 15
        updatedDate := readU32 body 17
        ipoDate := readU32 body 21
        zongguben := field 0, guojiagu := field 1, faqirenfarengu := field 2, farengu := field 3
        bgu := field 4, hgu := field 5, zhigonggu := field 6, zongzichan := field 7
        liudongzichan := field 8, gudingzichan := field 9, wuxingzichan := field 10
        gudongrenshu := field 11, liudongfuzhai := field 12, changqifuzhai := field 13
        zibengongjijin := field 14, jingzichan := field 15, zhuyingshouru := field 16
        zhuyinglirun := field 17, yingshouzhangkuan := field 18, yingyelirun := field 19
        touzishouyu := field 20, jingyingxianjinliu := field 21, zongxianjinliu := field 22
        cunhuo := field 23, lirunzonghe := field 24, shuihoulirun := field 25
        jinglirun := field 26, weifenpeilirun := field 27, meigujingzichan := field 28 })

/-- A share capital, zero if its word is. -/
def shareCapitalM (d : Bytes) (pos : ℕ) : m ℚ :=
  if readU32 d pos = 0 then pure 0 else getVolumeM M (readU32 d pos)

/-- The data of a corporate action, sixteen bytes that depend on its category. -/
def xdxrDataM (d : Bytes) (record : XdXrRecord) : m XdXrRecord := do
  if record.category = 1 then
    let fenhong ← readSingleM M d 0
    let peigujia ← readSingleM M d 4
    let songzhuangu ← readSingleM M d 8
    let peigu ← readSingleM M d 12
    pure { record with fenhong, peigujia, songzhuangu, peigu }
  else if record.category = 11 ∨ record.category = 12 then
    let suogu ← readSingleM M d 8
    pure { record with suogu }
  else if record.category = 13 ∨ record.category = 14 then
    let xingquanjia ← readSingleM M d 0
    let fenshu ← readSingleM M d 8
    pure { record with xingquanjia, fenshu }
  else
    let panqianliutong ← shareCapitalM M d 0
    let panhouliutong ← shareCapitalM M d 8
    let qianzongguben ← shareCapitalM M d 4
    let houzongguben ← shareCapitalM M d 12
    pure { record with panqianliutong, panhouliutong, qianzongguben, houzongguben }

/-- A corporate action. Eight bytes of the record are skipped. -/
def parseXdXrRecordM (body : Bytes) (pos : ℕ) : m (Option (XdXrRecord × ℕ × Unit)) := do
  let (year, month, day, _, _, pos) := getDatetime 9 body (pos + 8)
  let category ← M.index body pos
  let pos := pos + 1
  let bare : XdXrRecord :=
    { year, month, day
      category := category.toNat
      name := (xdxrName category.toNat).toList
      fenhong := none, peigujia := none, songzhuangu := none, peigu := none, suogu := none
      panqianliutong := none, panhouliutong := none, qianzongguben := none, houzongguben := none
      fenshu := none, xingquanjia := none }
  let record ←
    if pos + 16 ≤ body.length then do
      let d ← M.slice body pos 16
      xdxrDataM M d bare
    else pure bare
  pure (some (record, pos + 16, ()))

/-- Parses corporate actions, on a machine. -/
def parseXdXrInfoM (body : Bytes) : m (Except TdxError (List XdXrRecord)) :=
  if body.length < 11 then pure (.error (ErrorCode.responseLengthMismatch.err "body too short"))
  else do
    let result ← Records.loopM body.length 29 (fun pos _ => parseXdXrRecordM M body pos)
      (readU16 body 9) 11 ()
    pure (.ok result)

end

/-! ## The parsers -/

/-- Parses a security list. -/
def parseSecurityList (gbk : Bytes → Text) (body : Bytes) : Except TdxError (List SecurityInfo) :=
  parseSecurityListM Machine.wrapping gbk body

/-- Parses a finance report. -/
def parseFinanceInfo (body : Bytes) (market : UInt8) (code : Text) : Except TdxError FinanceInfo :=
  parseFinanceInfoM Machine.wrapping body market code

/-- Parses corporate actions. -/
def parseXdXrInfo (body : Bytes) : Except TdxError (List XdXrRecord) :=
  parseXdXrInfoM Machine.wrapping body

/-- A dividend of 2024-06-19. -/
example : (parseXdXrInfo (List.replicate 9 0 ++ [1, 0] ++ List.replicate 8 0 ++
    LittleEndian.toLE 4 20240619 ++ [1] ++ LittleEndian.toLE 4 0x40000000 ++
    List.replicate 12 0)).toOption =
    some [⟨2024, 6, 19, 1, "除权除息".toList, some (.finite 2), some (.finite 0), some (.finite 0),
      some (.finite 0), none, none, none, none, none, none, none⟩] := by
  decide +kernel

/-! ## The parsers do not panic -/

section

variable {m : Type → Type} [Monad m] [LawfulMonad m] {M : Machine m}

lemma readVolumeM_eq (hM : M.InRange) (data : Bytes) (pos : ℕ) :
    getVolumeM M (readU32 data pos) = pure (getVolumeM Machine.wrapping (readU32 data pos)) := by
  rw [getVolumeM_eq hM (readU32_lt data pos), getVolumeM_wrapping]

lemma readSingleM_eq (hM : M.InRange) {data : Bytes} {pos : ℕ} (h : pos + 4 ≤ data.length) :
    readSingleM M data pos = pure (readSingleM Machine.wrapping data pos) := by
  unfold readSingleM
  rw [hM.index (by omega), pure_bind, hM.index (by omega), pure_bind, hM.index (by omega),
    pure_bind, hM.index (by omega), pure_bind]
  rfl

lemma readSinglesM_eq (hM : M.InRange) {data : Bytes} (count : ℕ) : ∀ {pos : ℕ},
    pos + 4 * count ≤ data.length →
      readSinglesM M data count pos = pure (readSinglesM Machine.wrapping data count pos) := by
  induction count with
  | zero => exact fun _ => rfl
  | succ count ih =>
    intro pos h
    rw [readSinglesM, readSingleM_eq hM (by omega), pure_bind, ih (by omega), pure_bind]
    rfl

lemma shareCapitalM_eq (hM : M.InRange) (d : Bytes) (pos : ℕ) :
    shareCapitalM M d pos = pure (shareCapitalM Machine.wrapping d pos) := by
  unfold shareCapitalM
  split
  · rfl
  · exact readVolumeM_eq hM d pos

/-- The data of a record of sixteen bytes are read on every machine.

**Proof sketch.** By the branches of the category: each reads words within the sixteen bytes, which
no machine refuses. -/
lemma xdxrDataM_eq (hM : M.InRange) {d : Bytes} (h : d.length = 16) (record : XdXrRecord) :
    xdxrDataM M d record = pure (xdxrDataM Machine.wrapping d record) := by
  unfold xdxrDataM
  split
  · rw [readSingleM_eq hM (by omega), pure_bind, readSingleM_eq hM (by omega), pure_bind,
      readSingleM_eq hM (by omega), pure_bind, readSingleM_eq hM (by omega), pure_bind]
    rfl
  · split
    · rw [readSingleM_eq hM (by omega), pure_bind]
      rfl
    · split
      · rw [readSingleM_eq hM (by omega), pure_bind, readSingleM_eq hM (by omega), pure_bind]
        rfl
      · rw [shareCapitalM_eq hM, pure_bind, shareCapitalM_eq hM, pure_bind, shareCapitalM_eq hM,
          pure_bind, shareCapitalM_eq hM, pure_bind]
        rfl

lemma parseSecurityInfoM_eq (hM : M.InRange) (gbk : Bytes → Text) {body : Bytes} {pos : ℕ}
    (h : pos + 29 ≤ body.length) :
    parseSecurityInfoM M gbk body pos =
      pure (parseSecurityInfoM Machine.wrapping gbk body pos) := by
  unfold parseSecurityInfoM
  rw [hM.slice (by omega), pure_bind, hM.slice (by omega), pure_bind, hM.index (by omega),
    pure_bind, readVolumeM_eq hM, pure_bind]
  rfl

lemma parseXdXrRecordM_eq (hM : M.InRange) {body : Bytes} {pos : ℕ} (h : pos + 29 ≤ body.length) :
    parseXdXrRecordM M body pos = pure (parseXdXrRecordM Machine.wrapping body pos) := by
  have hdata : ((body.drop (pos + 13)).take 16).length = 16 := by
    rw [List.length_take_of_le]
    rw [List.length_drop]
    omega
  have hpos : (getDatetime 9 body (pos + 8)).2.2.2.2.2 = pos + 12 := rfl
  unfold parseXdXrRecordM
  simp only [hpos]
  rw [hM.index (by omega), pure_bind]
  simp only [if_pos (show pos + 12 + 1 + 16 ≤ body.length by omega)]
  rw [hM.slice (by omega), pure_bind, xdxrDataM_eq hM hdata, pure_bind]
  rfl

/-- **A security list is read without a panic.** -/
theorem parseSecurityListM_eq (hM : M.InRange) (gbk : Bytes → Text) (body : Bytes) :
    parseSecurityListM M gbk body = pure (parseSecurityList gbk body) := by
  have hloop : parseSecurityList gbk body =
      if body.length < 2 then .error (ErrorCode.responseLengthMismatch.err "body too short")
      else .ok (Records.loop body.length 29
        (fun pos _ => parseSecurityInfoM Machine.wrapping gbk body pos) (readU16 body 0) 2 ()) := by
    rw [← Records.loopM_id]
    rfl
  rw [hloop, parseSecurityListM]
  split
  · rfl
  · rw [Records.loopM_eq_pure fun _ _ h => parseSecurityInfoM_eq hM gbk h, pure_bind]

/-- **A finance report is read without a panic.** -/
theorem parseFinanceInfoM_eq (hM : M.InRange) (body : Bytes) (market : UInt8) (code : Text) :
    parseFinanceInfoM M body market code = pure (parseFinanceInfo body market code) := by
  unfold parseFinanceInfo parseFinanceInfoM
  split
  · rfl
  · rw [readSingleM_eq hM (by omega), pure_bind, readSinglesM_eq hM 30 (by omega), pure_bind]
    rfl

/-- **Corporate actions are read without a panic.** -/
theorem parseXdXrInfoM_eq (hM : M.InRange) (body : Bytes) :
    parseXdXrInfoM M body = pure (parseXdXrInfo body) := by
  have hloop : parseXdXrInfo body =
      if body.length < 11 then .error (ErrorCode.responseLengthMismatch.err "body too short")
      else .ok (Records.loop body.length 29
        (fun pos _ => parseXdXrRecordM Machine.wrapping body pos) (readU16 body 9) 11 ()) := by
    rw [← Records.loopM_id]
    rfl
  rw [hloop, parseXdXrInfoM]
  split
  · rfl
  · rw [Records.loopM_eq_pure fun _ _ h => parseXdXrRecordM_eq hM h, pure_bind]

end

end Tdxrs
