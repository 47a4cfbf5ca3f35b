import Formula.Proofs.Json.Holding
import Formula.Value.Document
/-!
Values read back from their documents. Every value but its real numbers is read as it was written. A
real number is read as its own text is read; one that is not finite is written as null and cannot be
read, nor can a value with such a part.
-/

namespace Formula

/-! ### Real numbers -/

theorem Decimal.mantissa_stripZeros {d : Decimal} (hd : d.mantissa ≠ 0) (n : Nat) :
    (stripZeros n d).mantissa ≠ 0 := by
  induction n generalizing d with
  | zero => exact hd
  | succ n ih =>
    unfold stripZeros
    split
    case isTrue h => exact ih (by dsimp only; omega)
    case isFalse => exact hd

theorem Decimal.exponent_normal {d : Decimal} (h : d.normal.mantissa = 0) :
    d.normal.exponent = 0 := by
  unfold normal at h ⊢
  split at h
  case isTrue hd => rw [if_pos hd]
  case isFalse hd => exact absurd h (mantissa_stripZeros hd _)

theorem Decimal.exponent_shortest {tie : Tie} {m : Nat} {q : Int}
    (h : (shortest tie m q).mantissa = 0) : (shortest tie m q).exponent = 0 := by
  unfold shortest at h ⊢
  split at h
  case isTrue hm => rw [if_pos hm]
  case isFalse hm =>
    rw [if_neg hm]
    exact exponent_normal h

theorem Binary.ofDouble_of_finite {x : Double} (hx : x.isFinite) :
    ∃ m q, ofDouble x = finite x.isNegative m q := by
  rw [Double.ofDouble_eq hx]
  split <;> exact ⟨_, _, rfl⟩

/-- A finite number is written as a decimal. -/
theorem Json.ofDouble_of_finite {x : Double} (hx : x.isFinite) :
    ∃ d : Decimal, (d.mantissa = 0 → d.exponent = 0) ∧ ofDouble x = decimal x.isNegative d := by
  obtain ⟨m, q, heq⟩ := Binary.ofDouble_of_finite hx
  refine ⟨Decimal.shortest .even m q, Decimal.exponent_shortest, ?_⟩
  rw [ofDouble, heq]

/-- A number that is not finite is written as null. -/
theorem Json.ofDouble_of_not_finite {x : Double} (hx : ¬x.isFinite) : ofDouble x = null := by
  rcases Double.ofDouble_of_not_finite (Bool.eq_false_iff.2 hx) with heq | heq <;>
    rw [ofDouble, heq]

theorem Json.writable_ofDouble (x : Double) : Writable (ofDouble x) := by
  by_cases hx : x.isFinite
  · obtain ⟨d, hd, heq⟩ := ofDouble_of_finite hx
    exact heq ▸ .decimal _ hd
  · exact ofDouble_of_not_finite hx ▸ .null

@[simp] theorem Json.nesting_ofDouble (x : Double) : (ofDouble x).nesting = 0 := by
  by_cases hx : x.isFinite
  · obtain ⟨d, -, heq⟩ := ofDouble_of_finite hx
    rw [heq]
    rfl
  · rw [ofDouble_of_not_finite hx]
    rfl

namespace Double

/-- The number that is read from the text of a number in a document, if one is. -/
def reread? (x : Double) : Option Double :=
  (Json.parse? (Json.ofDouble x).render).bind Json.double?

/-- Numbers are rounded more than once on the way back, so that 124.33333333333333 is read as the
double below it. -/
example : reread? ⟨0x405F155555555555⟩ = some ⟨0x405F155555555554⟩ := by decide +kernel

theorem double?_reread (x : Double) : (Json.ofDouble x).reread.double? = x.reread? := by
  rw [reread?, Json.parse?_render (Json.writable_ofDouble x), Option.bind_some]

theorem reread?_of_not_finite {x : Double} (hx : ¬x.isFinite) : x.reread? = none := by
  rw [← double?_reread, Json.ofDouble_of_not_finite hx]
  rfl

/-- What is read as a number can be held as data. -/
theorem isSound_reread {x : Double} (hx : x.reread?.isSome) (b : Nat) :
    (Json.ofDouble x).reread.isSound b := by
  rw [← double?_reread] at hx
  by_cases hfinite : x.isFinite
  · obtain ⟨d, -, heq⟩ := Json.ofDouble_of_finite hfinite
    rw [heq] at hx ⊢
    exact hx
  · rw [Json.ofDouble_of_not_finite hfinite]
    rfl

end Double

/-! ### Values -/

namespace Value

/-- The real numbers that a value holds. -/
def doubles : Value → List Double
  | real x => [x]
  | complex z => [z.re, z.im]
  | interval a => [a.lo, a.hi]
  | _ => []

/-- The value that is read from the document of a value, if one is. -/
def reread? : Value → Option Value
  | real x => x.reread?.map real
  | complex z => do some (complex ⟨← z.re.reread?, ← z.im.reread?⟩)
  | interval a => do some (interval ⟨← a.lo.reread?, ← a.hi.reread?, a.info⟩)
  | v => some v

theorem isSome_reread? (v : Value) : v.reread?.isSome ↔ ∀ x ∈ v.doubles, x.reread?.isSome := by
  cases v with
  | bool | int | boolInterval => simp [reread?, doubles]
  | real x => simp [reread?, doubles]
  | complex z =>
    simp only [reread?, doubles, List.forall_mem_cons]
    cases z.re.reread? <;> cases z.im.reread? <;> simp
  | interval a =>
    simp only [reread?, doubles, List.forall_mem_cons]
    cases a.lo.reread? <;> cases a.hi.reread? <;> simp

theorem kindOf?_tag (k : Kind) : kindOf? k.tag = some k := by
  cases k <;> decide

theorem infoOf?_toNat (info : UInt8) : infoOf? (.integer info.toNat) = some info := by
  have hmax : (info.toNat : Int) ≤ 255 := by
    have := info.toNat_lt
    omega
  simp [infoOf?, Json.intWithin?, hmax]

theorem int64?_toInt (n : Int64) : Json.int64? (.integer n.toInt) = some n := by
  have hmin : Int64.minValue.toInt ≤ n.toInt := Int64.minValue_le_toInt n
  have hmax : n.toInt ≤ Int64.maxValue.toInt := Int64.toInt_le n
  simp only [Json.int64?, Json.intWithin?, if_pos (And.intro hmin hmax), Option.map_some,
    Int64.ofInt_toInt]

/-! ### Their documents -/

theorem writable_int (n : Int64) : (Json.integer n.toInt).Writable := by
  have hmin := Int64.le_toInt n
  have hmax := Int64.toInt_lt n
  refine .integer ?_
  simp only [show Json.greatestMantissa = 2 ^ 64 - 1 from rfl]
  omega

theorem writable_info (info : UInt8) : (Json.integer info.toNat).Writable := by
  have hmax := info.toNat_lt
  refine .integer ?_
  simp only [show Json.greatestMantissa = 2 ^ 64 - 1 from rfl]
  omega

theorem writable_content (v : Value) : v.contentDocument.Writable := by
  cases v with
  | bool b => exact .bool b
  | int n => exact writable_int n
  | real x => exact Json.writable_ofDouble x
  | complex z =>
    refine .array ?_
    simp [Json.writable_ofDouble]
  | interval a =>
    refine Json.writable_ofFields ?_
    simp [Json.writable_ofDouble, writable_info]
  | boolInterval b =>
    refine Json.writable_ofFields ?_
    simp [Json.Writable.bool, writable_info]

theorem writable_document (v : Value) : v.document.Writable := by
  refine Json.writable_ofFields ?_
  simp [Json.writable_ofString, writable_content]

theorem isSound_integer {n : Int} (h : (Json.integer n).Writable) (b : Nat) :
    (Json.integer n).isSound b := by
  cases h with
  | integer hn => exact Json.double?_integer hn

theorem isSound_content {v : Value} (hv : v.reread?.isSome) {b : Nat}
    (hb : v.contentDocument.nesting ≤ b) : v.contentDocument.reread.isSound b := by
  have hdoubles := (isSome_reread? v).1 hv
  cases v with
  | bool b => rfl
  | int n => exact isSound_integer (writable_int n) b
  | real x => exact Double.isSound_reread (hdoubles x (by simp [doubles])) b
  | complex z =>
    have hopen := (Json.nesting_array_le.1 hb).1
    refine Json.isSound_array.2 ⟨hopen, ?_⟩
    simp only [Json.rereadAll, List.forall_mem_cons]
    exact ⟨Double.isSound_reread (hdoubles z.re (by simp [doubles])) _,
      Double.isSound_reread (hdoubles z.im (by simp [doubles])) _, by simp⟩
  | interval a =>
    have hopen := (Json.nesting_ofFields_le.1 hb).1
    rw [contentDocument, Json.reread_ofFields, Json.isSound_ofFields]
    simp only [List.map_cons, List.map_nil, List.forall_mem_cons]
    exact ⟨hopen, Double.isSound_reread (hdoubles a.lo (by simp [doubles])) _,
      Double.isSound_reread (hdoubles a.hi (by simp [doubles])) _,
      isSound_integer (writable_info a.info) _, by simp⟩
  | boolInterval r =>
    have hopen := (Json.nesting_ofFields_le.1 hb).1
    rw [contentDocument, Json.reread_ofFields, Json.isSound_ofFields]
    simp only [List.map_cons, List.map_nil, List.forall_mem_cons]
    exact ⟨hopen, rfl, rfl, isSound_integer (writable_info r.info) _, by simp⟩

/-- What is read as a value can be held as data, if as many arrays and objects may be open. -/
theorem isSound_document {v : Value} (hv : v.reread?.isSome) {b : Nat}
    (hb : v.document.nesting ≤ b) : v.document.reread.isSound b := by
  obtain ⟨hopen, hfields⟩ := Json.nesting_ofFields_le.1 hb
  have hcontent := isSound_content hv (hfields ("value", v.contentDocument) (by simp))
  rw [document, Json.reread_ofFields, Json.isSound_ofFields]
  simp only [List.map_cons, List.map_nil, List.forall_mem_cons]
  exact ⟨hopen, rfl, hcontent, by simp⟩

/-! ### Reading them -/

theorem ofContent?_reread (v : Value) : ofContent? v.kind v.contentDocument.reread = v.reread? := by
  cases v with
  | bool b => rfl
  | int n =>
    show (Json.int64? (.integer n.toInt)).map int = _
    rw [int64?_toInt]
    rfl
  | real x =>
    show (Json.ofDouble x).reread.double?.map real = _
    rw [Double.double?_reread]
    rfl
  | complex z =>
    simp [ofContent?, contentDocument, kind, Json.reread, Json.rereadAll, Double.double?_reread,
      reread?]
  | interval a =>
    cases hlo : a.lo.reread? <;> cases hhi : a.hi.reread? <;>
      simp [ofContent?, contentDocument, kind, Json.reread, Json.ofFields, Json.rereadFields,
        rangeOf?, Json.fields?, Json.once?, Json.atMostOnce, Double.double?_reread, hlo, hhi,
        infoOf?_toNat, reread?]
  | boolInterval b =>
    simp [ofContent?, contentDocument, kind, Json.reread, Json.ofFields, Json.rereadFields,
      rangeOf?, Json.fields?, Json.once?, Json.atMostOnce, Json.bool?, infoOf?_toNat, reread?]

/-- A value is read back from its document but for its real numbers. -/
theorem ofDocument?_reread (v : Value) : ofDocument? .held v.document.reread = v.reread? := by
  simp [document, Json.ofFields, Json.ofString, Json.reread, Json.rereadFields, ofDocument?,
    Json.fields?, Json.once?, Json.atMostOnce, isHoldable, tagOf?, kindOf?_tag, ofContent?_reread]

/-- Where each of its real numbers is read as itself, so is the value. -/
theorem reread?_of_doubles {v : Value} (h : ∀ x ∈ v.doubles, x.reread? = some x) :
    v.reread? = some v := by
  cases v <;> simp_all [doubles, reread?]

theorem reread?_of_not_finite {v : Value} (h : ∃ x ∈ v.doubles, ¬x.isFinite) :
    v.reread? = none := by
  obtain ⟨x, hx, hfinite⟩ := h
  refine Option.not_isSome_iff_eq_none.1 fun hsome => ?_
  have hread := (isSome_reread? v).1 hsome x hx
  rw [Double.reread?_of_not_finite hfinite] at hread
  exact absurd hread (by decide)

end Value

end Formula
