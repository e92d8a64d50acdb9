import Tdxrs.Library.MapOrder
import Tdxrs.Library.Utf8
import Tdxrs.Protocol.Types

set_option relaxedAutoImplicit false
set_option autoImplicit false

/-!
# Parsing F10 texts

`src/profile/parser_f10.rs`. A text is cut at its titles, which have a number and stand in brackets,
into sections, which are kept in a hash map. The tables of the first section met with the number 1
and of the first one met with the number 2 are searched for fields. The order in which the sections
are met is the one of the hash map, which is not the one of the text and is different from run to
run.

## Main definitions

* `Tdxrs.splitSections` — the sections of a text.
* `Tdxrs.extractTableField` — the value of a field in a table.
* `Tdxrs.parseF10`, `Tdxrs.extractBasicInfo` — what is parsed, in an order of the sections.
* `Tdxrs.OrderIndependent` — what is parsed is the same in every order.

## Main results

* `Tdxrs.splitTitles_fuel` — the search for titles gets through the text.
* `Tdxrs.parseF10_eq` — what is parsed in an order.
* `Tdxrs.parseFields_eq_iff` — when two sections have the same fields.
* `Tdxrs.orderIndependent_iff` — when what is parsed is a function of the text.
-/

namespace Tdxrs

/-- A hash map of texts. -/
abbrev TextMap := Finmap fun _ : Text => Text

/-! ## Sections -/

section Sections

-- the class `\d` of regular expressions: the decimal digits of all scripts
variable (digit : Char → Bool)

/-- A title at the beginning of a text, with what follows on it: `【(\d+\.[^】]+)】`. -/
def matchTitle : Text → Option (Text × Text)
  | '【' :: s =>
    let number := s.takeWhile digit
    match s.dropWhile digit with
    | '.' :: s =>
      let name := s.takeWhile (· ≠ '】')
      match s.dropWhile (· ≠ '】') with
      | '】' :: rest =>
        if number = [] ∨ name = [] then none
        else some ('【' :: number ++ '.' :: name ++ ['】'], rest)
      | _ => none
    | _ => none
  | _ => none

/-- The text before the first title, and the titles with the text up to the next one. The fuel is
for the characters of the text. -/
def splitTitles : ℕ → Text → Text × List (Text × Text)
  | 0, s => (s, [])
  | fuel + 1, s =>
    match matchTitle digit s with
    | some (title, rest) =>
      let (content, more) := splitTitles fuel rest
      ([], (title, content) :: more)
    | none =>
      match s with
      | [] => ([], [])
      | c :: s =>
        let (before, more) := splitTitles fuel s
        (c :: before, more)

/-- A title without its brackets. -/
def trimBrackets (title : Text) : Text :=
  let bracket (c : Char) : Bool := c = '【' || c = '】'
  ((title.dropWhile bracket).reverse.dropWhile bracket).reverse

/-- The sections of a text; the last one with a title counts. -/
def splitSections (raw : Text) : TextMap :=
  MapOrder.collect ((splitTitles digit raw.length raw).2.map fun (title, content) =>
    ⟨trimBrackets title, Utf8.trim content⟩) ∅

variable {digit}

/-- What follows on a title is shorter.

**Proof sketch.** A title is an opening bracket, digits, a point, a name and a closing bracket; what
follows is a suffix of the text behind at least the brackets. -/
lemma length_of_matchTitle {s title rest : Text} (h : matchTitle digit s = some (title, rest)) :
    rest.length < s.length := by
  unfold matchTitle at h
  split at h
  · rename_i s
    have hdigits := (List.dropWhile_suffix digit (l := s)).length_le
    dsimp only at h
    split at h
    · rename_i s' hs'
      have hname := (List.dropWhile_suffix (fun c => decide (c ≠ '】')) (l := s')).length_le
      split at h
      · rename_i rest' hrest
        split at h
        · exact nomatch h
        · cases h
          rw [hrest] at hname
          rw [hs'] at hdigits
          simp only [List.length_cons] at hname hdigits ⊢
          omega
      · exact nomatch h
    · exact nomatch h
  · exact nomatch h

/-- **The search for titles gets through the text**: fuel for as many characters as the text has is
enough.

**Proof sketch.** Induction on the one fuel, for any other. A title leaves a shorter text
(`length_of_matchTitle`), and where there is none, one character is passed over; so both have enough
fuel for the rest. -/
theorem splitTitles_fuel {fuel fuel' : ℕ} {s : Text} (h : s.length ≤ fuel)
    (h' : s.length ≤ fuel') : splitTitles digit fuel s = splitTitles digit fuel' s := by
  induction fuel generalizing fuel' s with
  | zero =>
    obtain rfl := List.length_eq_zero_iff.mp (Nat.le_zero.mp h)
    cases fuel' <;> rfl
  | succ fuel ih =>
    cases fuel' with
    | zero =>
      obtain rfl := List.length_eq_zero_iff.mp (Nat.le_zero.mp h')
      rfl
    | succ fuel' =>
      unfold splitTitles
      dsimp only
      split
      · rename_i hmatch
        have hlt := length_of_matchTitle hmatch
        rw [ih (by omega) (by omega : _ ≤ fuel')]
      · cases s with
        | nil => rfl
        | cons c s =>
          dsimp only
          rw [ih (Nat.le_of_succ_le_succ h) (Nat.le_of_succ_le_succ h')]

end Sections

/-! ## Fields of tables -/

/-- The bars between the cells of a table. -/
def isBar (c : Char) : Bool := c = '|' || c = '\uFF5C' || c = '\u2502'

/-- What follows on the first place where a text is found in another. -/
def findAfter (name : Text) : Text → Option Text
  | [] => if name = [] then some [] else none
  | c :: s =>
    if name.isPrefixOf (c :: s) then some ((c :: s).drop name.length) else findAfter name s

/-- What follows on the next bar, which has to begin in the first 21 bytes. -/
def afterBar : ℕ → Text → Option Text
  | _, [] => none
  | i, c :: s => if 20 < i then none else if isBar c then some s else afterBar (i + c.utf8Size) s

/-- The value of a field in a table: what is in the cell next to the first place of its name. -/
def extractTableField (text fieldName : Text) : Option Text := do
  let afterField ← findAfter fieldName text
  let valuePart ← afterBar 0 afterField
  let value := Utf8.trim (valuePart.takeWhile fun c => !isBar c && c ≠ '\n')
  if value ≠ [] ∧ value ≠ "---".toList then some value else none

/-- The value of the first of some fields that has one. -/
def firstField (content : Text) (searchKeys : List Text) : Option Text :=
  searchKeys.findSome? (extractTableField content)

/-- The fields of a table, each under its name and by the names that it is searched with. -/
def parseFields (keyFields : List (Text × List Text)) (content : Text) : TextMap :=
  keyFields.foldl (fun result field =>
    match firstField content field.2 with
    | some value => result.insert field.1 value
    | none => result) ∅

/-- The fields of the basic information. -/
def basicFields : List (Text × List Text) :=
  [("公司名称", ["公司名称"]), ("英文名称", ["英文名称", "英文全称"]), ("证券代码", ["证券代码"]),
    ("证券简称", ["证券简称"]), ("行业类别", ["行业类别", "所属行业", "通达信研究行业"]),
    ("上市日期", ["上市日期"]), ("注册资本", ["注册资本"]), ("法人代表", ["法定代表人", "法人代表"]),
    ("注册地址", ["注册地址"]), ("办公地址", ["办公地址"]), ("主营业务", ["主营业务"]),
    ("经营范围", ["经营范围"]), ("公司简介", ["公司简介"]), ("联系电话", ["联系电话"]),
    ("电子邮箱", ["电子邮箱"]), ("公司网址", ["公司网址"])].map
    fun (name, keys) => (name.toList, keys.map String.toList)

/-- The fields of the listing. -/
def listingFields : List (Text × List Text) :=
  [("网上发行日期", ["网上发行日期"]), ("发行方式", ["发行方式"]),
    ("发行量(股)", ["发行量(股)", "发行量(万股)"]),
    ("每股发行价(元)", ["每股发行价(元)", "发行价格(元)"]),
    ("募集资金净额(元)", ["募集资金净额(元)", "募集资金净额(万)"]),
    ("上市首日收盘价(元)", ["上市首日收盘价(元)", "上市首日收盘价"]), ("主承销商", ["主承销商"]),
    ("保荐人", ["保荐人"])].map
    fun (name, keys) => (name.toList, keys.map String.toList)

/-- The basic information of a section. -/
def parseBasicInfo : Text → TextMap := parseFields basicFields

/-- The listing of a section. -/
def parseListingInfo : Text → TextMap := parseFields listingFields

/-! ## What is parsed -/

/-- What is parsed from a text. -/
structure F10Parsed where
  basicInfo : TextMap
  listingInfo : TextMap
  sections : TextMap

/-- The state of the loop over the sections: what has been parsed, and whether a first and a second
section have been found. -/
structure ParseState where
  result : F10Parsed
  basicFound : Bool
  listingFound : Bool

/-- Whether a title has the number 1. -/
def isFirst (title : Text) : Bool := "1.".toList.isPrefixOf title

/-- Whether a title has the number 2. -/
def isSecond (title : Text) : Bool := "2.".toList.isPrefixOf title

/-- One round of the loop over the sections. -/
def parseSection (s : ParseState) (e : Σ _ : Text, Text) : ParseState :=
  let s :=
    if isFirst e.1 && !s.basicFound then
      { s with result := { s.result with basicInfo := parseBasicInfo e.2 }, basicFound := true }
    else if isSecond e.1 && !s.listingFound then
      { s with
        result := { s.result with listingInfo := parseListingInfo e.2 }
        listingFound := true }
    else s
  { s with result := { s.result with sections := s.result.sections.insert e.1 e.2 } }

/-- `F10TextParser::parse`, with the sections in an order. -/
def parseF10 (order : List (Σ _ : Text, Text)) : F10Parsed :=
  (order.foldl parseSection ⟨⟨∅, ∅, ∅⟩, false, false⟩).result

/-- Whether a section has the basic information, for `extract_basic_info`. -/
def isBasicTitle (title : Text) : Bool :=
  "1.基本资料".toList.isPrefixOf title || "1.公司资料".toList.isPrefixOf title

/-- `extract_basic_info`, with the sections in an order. -/
def extractBasicInfo : List (Σ _ : Text, Text) → TextMap
  | [] => ∅
  | e :: order => if isBasicTitle e.1 then parseBasicInfo e.2 else extractBasicInfo order

/-- A title does not have both numbers. -/
lemma not_second_of_first {title : Text} (h : isFirst title = true) : isSecond title = false := by
  cases title with
  | nil => exact nomatch h
  | cons c s =>
    have hc : c = '1' := by
      simp only [isFirst, String.reduceToList, List.isPrefixOf_cons_cons, Bool.and_eq_true,
        beq_iff_eq] at h
      exact h.1.symm
    subst hc
    rfl

/-- What is parsed from a state of the loop on: what has been found stays.

**Proof sketch.** Induction on the order. Each section is collected; a first title sets the basic
information unless it has been found, a second title the listing, and no title is both
(`not_second_of_first`), which is what `MapOrder.first` does with the rest of the order. -/
lemma foldl_parseSection (order : List (Σ _ : Text, Text)) (s : ParseState) :
    (order.foldl parseSection s).result =
      { basicInfo :=
          if s.basicFound then s.result.basicInfo
          else MapOrder.first isFirst parseBasicInfo s.result.basicInfo order
        listingInfo :=
          if s.listingFound then s.result.listingInfo
          else MapOrder.first isSecond parseListingInfo s.result.listingInfo order
        sections := MapOrder.collect order s.result.sections } := by
  induction order generalizing s with
  | nil => simp [MapOrder.first, MapOrder.collect]
  | cons e order ih =>
    rw [List.foldl_cons, ih, MapOrder.first_cons, MapOrder.first_cons, MapOrder.collect_cons]
    cases hfirst : isFirst e.1 with
    | true =>
      have hsecond := not_second_of_first hfirst
      cases hbasic : s.basicFound <;>
        simp [parseSection, hfirst, hsecond, hbasic]
    | false =>
      cases hsecond : isSecond e.1 <;> cases hlisting : s.listingFound <;>
        simp [parseSection, hfirst, hsecond, hlisting]

/-- **What is parsed in an order**: the first section with the number 1, the first one with the
number 2, and all sections. -/
theorem parseF10_eq (order : List (Σ _ : Text, Text)) :
    parseF10 order =
      { basicInfo := MapOrder.first isFirst parseBasicInfo ∅ order
        listingInfo := MapOrder.first isSecond parseListingInfo ∅ order
        sections := MapOrder.collect order ∅ } :=
  foldl_parseSection order _

lemma extractBasicInfo_eq (order : List (Σ _ : Text, Text)) :
    extractBasicInfo order = MapOrder.first isBasicTitle parseBasicInfo ∅ order := by
  induction order with
  | nil => rfl
  | cons e order ih => rw [extractBasicInfo, MapOrder.first_cons, ih]

/-- The sections of `extract_basic_info` have the number 1. -/
lemma first_of_isBasicTitle {title : Text} (h : isBasicTitle title) :
    isFirst title := by
  rw [isBasicTitle, Bool.or_eq_true] at h
  rw [isFirst]
  rcases h with h | h
  all_goals
    rw [List.isPrefixOf_iff_prefix] at h ⊢
    exact List.IsPrefix.trans (by decide +kernel) h

/-! ## Fields of two sections -/

/-- Two sections have the same value for each of some fields. -/
def SameFields (keyFields : List (Text × List Text)) (content content' : Text) : Prop :=
  ∀ field ∈ keyFields, firstField content field.2 = firstField content' field.2

/-- Other fields do not matter for a name. -/
lemma lookup_fields_of_notMem {keyFields : List (Text × List Text)} {name : Text}
    (h : name ∉ keyFields.map Prod.fst) (content : Text) (m : TextMap) :
    (keyFields.foldl (fun result field =>
      match firstField content field.2 with
      | some value => result.insert field.1 value
      | none => result) m).lookup name = m.lookup name := by
  induction keyFields generalizing m with
  | nil => rfl
  | cons field keyFields ih =>
    rw [List.map_cons, List.mem_cons, not_or] at h
    rw [List.foldl_cons, ih h.2]
    split
    · exact Finmap.lookup_insert_of_ne _ h.1
    · rfl

/-- The value of a field of a table.

**Proof sketch.** Induction on the table, for any map without a value for the name. The fields
before this one have other names and put in nothing for it; this one puts in its value, if there is
one; and no later field has its name (`lookup_fields_of_notMem`). -/
lemma lookup_parseFields {keyFields : List (Text × List Text)}
    (hnames : (keyFields.map Prod.fst).Nodup) {field : Text × List Text}
    (hfield : field ∈ keyFields) (content : Text) :
    (parseFields keyFields content).lookup field.1 = firstField content field.2 := by
  rw [parseFields]
  -- the names before the field have not put in a value for it
  have hempty : (∅ : TextMap).lookup field.1 = none := Finmap.lookup_empty _
  generalize (∅ : TextMap) = m at hempty
  induction keyFields generalizing m with
  | nil => exact absurd hfield List.not_mem_nil
  | cons first keyFields ih =>
    rw [List.map_cons, List.nodup_cons] at hnames
    rw [List.foldl_cons]
    rcases List.mem_cons.mp hfield with rfl | hfield
    · rw [lookup_fields_of_notMem hnames.1]
      split
      · rename_i hvalue
        rw [Finmap.lookup_insert, hvalue]
      · rename_i hvalue
        rw [hempty, hvalue]
    · refine ih hnames.2 hfield _ ?_
      have hne : field.1 ≠ first.1 := fun h => hnames.1 (h ▸ List.mem_map_of_mem hfield)
      split
      · rw [Finmap.lookup_insert_of_ne _ hne, hempty]
      · exact hempty

/-- **When two sections have the same fields**. -/
theorem parseFields_eq_iff {keyFields : List (Text × List Text)}
    (hnames : (keyFields.map Prod.fst).Nodup) {content content' : Text} :
    parseFields keyFields content = parseFields keyFields content' ↔
      SameFields keyFields content content' := by
  constructor
  · intro h field hfield
    rw [← lookup_parseFields hnames hfield, h, lookup_parseFields hnames hfield]
  · intro h
    exact List.foldl_ext _ _ _ fun m field hfield => by rw [h field hfield]

/-! ## Independence of the order -/

/-- What is parsed from a text is the same in every order of its sections. -/
def OrderIndependent (digit : Char → Bool) (raw : Text) : Prop :=
  ∀ order order', MapOrder.IsOrder (splitSections digit raw) order →
    MapOrder.IsOrder (splitSections digit raw) order' →
      parseF10 order = parseF10 order' ∧ extractBasicInfo order = extractBasicInfo order'

/-- The fields of the first section with a property are the same in every order exactly if any two
sections with the property have the same. -/
lemma first_parseFields_eq_iff {keyFields : List (Text × List Text)}
    (hnames : (keyFields.map Prod.fst).Nodup) (p : Text → Bool) (m : TextMap) :
    (∀ order order', MapOrder.IsOrder m order → MapOrder.IsOrder m order' →
      MapOrder.first p (parseFields keyFields) ∅ order =
        MapOrder.first p (parseFields keyFields) ∅ order') ↔
      ∀ title content title' content', m.lookup title = some content →
        m.lookup title' = some content' → p title → p title' →
          SameFields keyFields content content' := by
  refine (MapOrder.first_eq_iff ∅).trans ?_
  simp only [parseFields_eq_iff hnames]

/-- **What is parsed is a function of the text** exactly if any two sections with the number 1 have
the same basic information, and any two with the number 2 the same listing.

**Proof sketch.** What is found in the first section with a number depends on the order unless all
of them have the same. The sections that `extract_basic_info` looks for have the number 1, and the
map of the sections is collected again in every order. -/
theorem orderIndependent_iff (digit : Char → Bool) (raw : Text) :
    OrderIndependent digit raw ↔
      ∀ title content title' content', (splitSections digit raw).lookup title = some content →
        (splitSections digit raw).lookup title' = some content' →
          (isFirst title → isFirst title' →
            SameFields basicFields content content') ∧
          (isSecond title → isSecond title' →
            SameFields listingFields content content') := by
  have hbasicNames : (basicFields.map Prod.fst).Nodup := by decide +kernel
  have hlistingNames : (listingFields.map Prod.fst).Nodup := by decide +kernel
  have hbasic := first_parseFields_eq_iff hbasicNames isFirst (splitSections digit raw)
  have hlisting := first_parseFields_eq_iff hlistingNames isSecond (splitSections digit raw)
  constructor
  · intro h title content title' content' hcontent hcontent'
    refine ⟨hbasic.mp (fun order order' horder horder' => ?_) _ _ _ _ hcontent hcontent',
      hlisting.mp (fun order order' horder horder' => ?_) _ _ _ _ hcontent hcontent'⟩
    · have hparse := congrArg F10Parsed.basicInfo (h order order' horder horder').1
      rwa [parseF10_eq, parseF10_eq] at hparse
    · have hparse := congrArg F10Parsed.listingInfo (h order order' horder horder').1
      rwa [parseF10_eq, parseF10_eq] at hparse
  · intro h order order' horder horder'
    have hone := fun title content title' content' hcontent hcontent' =>
      (h title content title' content' hcontent hcontent').1
    have htwo := fun title content title' content' hcontent hcontent' =>
      (h title content title' content' hcontent hcontent').2
    refine ⟨?_, ?_⟩
    · rw [parseF10_eq, parseF10_eq, horder.collect_eq, horder'.collect_eq]
      congr 1
      · exact hbasic.mpr hone _ _ horder horder'
      · exact hlisting.mpr htwo _ _ horder horder'
    · rw [extractBasicInfo_eq, extractBasicInfo_eq]
      refine (first_parseFields_eq_iff hbasicNames isBasicTitle _).mpr ?_ _ _ horder horder'
      intro title content title' content' hcontent hcontent' htitle htitle'
      exact hone _ _ _ _ hcontent hcontent' (first_of_isBasicTitle htitle)
        (first_of_isBasicTitle htitle')

/-- Two sections with the number 1, and a company name in each. -/
def twoNames : Text := "【1.基本资料】|公司名称|甲|【1.公司概况】|公司名称|乙|".toList

/-- Which of two names is found depends on the order. -/
theorem order_matters : ¬ OrderIndependent Char.isDigit twoNames := by
  intro h
  have horder : MapOrder.IsOrder (splitSections Char.isDigit twoNames)
      [⟨"1.基本资料".toList, "|公司名称|甲|".toList⟩,
        ⟨"1.公司概况".toList, "|公司名称|乙|".toList⟩] := by
    rw [MapOrder.IsOrder]
    decide +kernel
  have hparse := (h _ _ horder (horder.of_perm (List.Perm.swap _ _ _))).1
  have hname := congrArg (fun parsed => parsed.basicInfo.lookup "公司名称".toList) hparse
  revert hname
  decide +kernel

end Tdxrs
