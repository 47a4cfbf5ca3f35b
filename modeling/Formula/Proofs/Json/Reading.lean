import Formula.Proofs.Json.Numbers
import Formula.Proofs.Json.Strings
/-!
Reading what was written. The text of a document takes the reader from where a value is due to where
that value is delivered, whatever arrays and objects are open, and leaves what stands behind it. So
a document that is written is read back, with its numbers as they are kept.
-/

namespace Formula.Json

/-! ### Documents that are read back -/

/-- What the reader takes as numbers when they are written: integers of 64 bits at most, and
decimals whose zero has exponent zero. -/
inductive Writable : Json → Prop where
  | null : Writable null
  | bool (b : Bool) : Writable (bool b)
  | integer {n : Int} (h : n.natAbs ≤ greatestMantissa) : Writable (integer n)
  | decimal (negative : Bool) {d : Decimal} (h : d.mantissa = 0 → d.exponent = 0) :
      Writable (decimal negative d)
  | string (text : Option String) : Writable (string text)
  | array {items : List Json} (h : ∀ j ∈ items, Writable j) : Writable (array items)
  | object {fields : List (Option String × Json)} (h : ∀ f ∈ fields, Writable f.2) :
      Writable (object fields)

mutual

/-- The document that is read where one is written: the same with its decimals as they are kept. -/
def reread : Json → Json
  | decimal negative d => decimal negative (rewritten d)
  | array items => array (rereadAll items)
  | object fields => object (rereadFields fields)
  | j => j

/-- The items that are read. -/
def rereadAll : List Json → List Json
  | [] => []
  | j :: js => reread j :: rereadAll js

/-- The fields that are read. -/
def rereadFields : List (Option String × Json) → List (Option String × Json)
  | [] => []
  | (name, j) :: fs => (name, reread j) :: rereadFields fs

end

/-! ### Stretches of text -/

theorem scanToken_of_isGap {c : Char} (h : isGap c) (cs : List Char) :
    scanToken (c :: cs) = none := by
  have hcases : ((c = ' ' ∨ c = '\t') ∨ c = '\n') ∨ c = '\r' := by
    simpa [isGap] using h
  rcases hcases with ((rfl | rfl) | rfl) | rfl <;>
    simp [scanToken, scanNumber, Decimal.spanDigits]

namespace Reading

/-- From one state the reader comes to another over a stretch of text, with no more turns than it
has characters, and goes on behind it. -/
def Reads (reading : Reading) (cs : List Char) (next : Reading) (rest : List Char) : Prop :=
  ∃ n, n + rest.length ≤ cs.length ∧ ∀ fuel, run (fuel + n) reading cs = run fuel next rest

theorem Reads.trans {r₁ r₂ r₃ : Reading} {cs₁ cs₂ cs₃ : List Char} (h₁₂ : Reads r₁ cs₁ r₂ cs₂)
    (h₂₃ : Reads r₂ cs₂ r₃ cs₃) : Reads r₁ cs₁ r₃ cs₃ := by
  obtain ⟨m, hm, hrun⟩ := h₁₂
  obtain ⟨n, hn, hrun'⟩ := h₂₃
  refine ⟨n + m, by omega, fun fuel => ?_⟩
  rw [← Nat.add_assoc, hrun, hrun']

/-- Over one token the reader makes the move of the token. -/
theorem reads_token {reading next : Reading} {text rest : List Char} {t : Token}
    (htext : text ≠ []) (hscan : scanToken (text ++ rest) = some (t, rest))
    (hstep : reading.step t = some next) : Reads reading (text ++ rest) next rest := by
  obtain ⟨c, cs, rfl⟩ := List.exists_cons_of_ne_nil htext
  rw [List.cons_append] at hscan ⊢
  have hgap : ¬isGap c = true := by
    intro h
    rw [scanToken_of_isGap h] at hscan
    cases hscan
  refine ⟨1, by simp; omega, fun fuel => ?_⟩
  rw [run, if_neg hgap, hscan]
  simp only [hstep]

/-- A mark of one character is a token. -/
theorem reads_mark {reading next : Reading} {c : Char} {rest : List Char} {t : Token}
    (hscan : scanToken (c :: rest) = some (t, rest)) (hstep : reading.step t = some next) :
    Reads reading (c :: rest) next rest :=
  reads_token (List.cons_ne_nil c []) hscan hstep

/-- A text that the reader comes to the end of is read. -/
theorem ofChars?_of_reads {cs : List Char} {j : Json} (h : Reads (value []) cs (done j) []) :
    ofChars? cs = some j := by
  obtain ⟨n, hn, hrun⟩ := h
  obtain ⟨fuel, hfuel⟩ : ∃ fuel, cs.length = fuel + n := ⟨cs.length - n, by simp at hn; omega⟩
  rw [ofChars?, hfuel, hrun, run]

/-! ### Values -/

/-- A value may come next, inside so many arrays and objects. -/
inductive Awaits : Reading → List Opened → Prop where
  | value (opened : List Opened) : Awaits (value opened) opened
  | firstItem (opened : List Opened) : Awaits (firstItem opened) (.array [] :: opened)

theorem Awaits.step_leaf {reading : Reading} {opened : List Opened} (h : Awaits reading opened)
    (j : Json) : reading.step (.leaf j) = some (deliver j opened) := by
  cases h <;> rfl

theorem Awaits.step_openArray {reading : Reading} {opened : List Opened}
    (h : Awaits reading opened) : reading.step .openArray = some (.firstItem opened) := by
  cases h <;> rfl

theorem Awaits.step_openObject {reading : Reading} {opened : List Opened}
    (h : Awaits reading opened) : reading.step .openObject = some (.firstName opened) := by
  cases h <;> rfl

/-- A name may come next, behind so many fields of an object. -/
inductive AwaitsName : Reading → List (Option String × Json) → List Opened → Prop where
  | first (opened : List Opened) : AwaitsName (firstName opened) [] opened
  | next (fields : List (Option String × Json)) (opened : List Opened) :
      AwaitsName (nextName fields opened) fields opened

theorem AwaitsName.step_leaf {reading : Reading} {fields : List (Option String × Json)}
    {opened : List Opened} (h : AwaitsName reading fields opened) (text : Option String) :
    reading.step (.leaf (.string text)) = some (colon fields text opened) := by
  cases h <;> rfl

/-- Where a value may come next, the text of the document is read as that value. -/
def ReadsBack (j : Json) : Prop :=
  ∀ {reading : Reading} {opened : List Opened} {rest : List Char}, Awaits reading opened →
    Delimited rest → Reads reading (j.chars rest) (deliver j.reread opened) rest

theorem readsBack_leaf {j : Json} {text : List Char} (hchars : ∀ rest, j.chars rest = text ++ rest)
    (htext : text ≠ [])
    (hscan : ∀ rest, Delimited rest → scanToken (text ++ rest) = some (.leaf j.reread, rest)) :
    ReadsBack j := by
  intro reading opened rest hawaits hrest
  rw [hchars]
  exact reads_token htext (hscan rest hrest) (hawaits.step_leaf _)

theorem delimited_cons {c : Char} (h : c.isDigit = false ∧ c ≠ '.' ∧ c ≠ 'e' ∧ c ≠ 'E')
    (rest : List Char) : Delimited (c :: rest) := by
  intro d hd
  cases hd
  exact h

/-- The items of an array are read one after the other, up to the closing bracket. -/
theorem reads_items {js : List Json} {opened : List Opened} {rest : List Char} :
    ∀ {j : Json} {items : List Json} {reading : Reading}, (∀ k ∈ j :: js, ReadsBack k) →
      Awaits reading (.array items :: opened) →
      Reads reading (itemChars (j :: js) (']' :: rest))
        (deliver (.array (items.reverse ++ rereadAll (j :: js))) opened) rest := by
  induction js with
  | nil =>
    intro j items reading hback hawaits
    have hitem := hback j List.mem_cons_self hawaits (delimited_cons (c := ']') (by decide) rest)
    have hclose : (afterItem (j.reread :: items) opened).step .closeArray =
        some (deliver (.array (items.reverse ++ rereadAll [j])) opened) := by
      simp [step, rereadAll]
    exact hitem.trans (reads_mark (c := ']') rfl hclose)
  | cons k js ih =>
    intro j items reading hback hawaits
    have hitem := hback j List.mem_cons_self hawaits
      (delimited_cons (c := ',') (by decide) (itemChars (k :: js) (']' :: rest)))
    have hcomma : Reads (afterItem (j.reread :: items) opened)
        (',' :: itemChars (k :: js) (']' :: rest)) (value (.array (j.reread :: items) :: opened))
        (itemChars (k :: js) (']' :: rest)) := reads_mark rfl rfl
    have hitems := ih (fun i hi => hback i (List.mem_cons_of_mem j hi))
      (.value (.array (j.reread :: items) :: opened))
    simpa [itemChars, rereadAll] using hitem.trans (hcomma.trans hitems)

/-- A name, a colon and a value are read as a field. -/
theorem reads_field {j : Json} (hback : ReadsBack j) {reading : Reading} {name : Option String}
    {fields : List (Option String × Json)} {opened : List Opened} {rest : List Char}
    (hawaits : AwaitsName reading fields opened) (hrest : Delimited rest) :
    Reads reading (quoted name ++ ':' :: j.chars rest)
      (afterField ((name, j.reread) :: fields) opened) rest := by
  have hname := reads_token (quoted_ne_nil name) (scanToken_quoted name (':' :: j.chars rest))
    (hawaits.step_leaf name)
  have hcolon : Reads (colon fields name opened) (':' :: j.chars rest)
      (value (.object fields name :: opened)) (j.chars rest) := reads_mark rfl rfl
  exact hname.trans (hcolon.trans (hback (.value _) hrest))

/-- The fields of an object are read one after the other, up to the closing brace. -/
theorem reads_fields {fs : List (Option String × Json)} {opened : List Opened} {rest : List Char} :
    ∀ {f : Option String × Json} {fields : List (Option String × Json)} {reading : Reading},
      (∀ g ∈ f :: fs, ReadsBack g.2) → AwaitsName reading fields opened →
      Reads reading (fieldChars (f :: fs) ('}' :: rest))
        (deliver (.object (fields.reverse ++ rereadFields (f :: fs))) opened) rest := by
  induction fs with
  | nil =>
    intro f fields reading hback hawaits
    have hfield := @reads_field _ (hback f List.mem_cons_self) _ f.1 _ _ _ hawaits
      (delimited_cons (c := '}') (by decide) rest)
    have hclose : (afterField ((f.1, f.2.reread) :: fields) opened).step .closeObject =
        some (deliver (.object (fields.reverse ++ rereadFields [f])) opened) := by
      simp [step, rereadFields]
    exact hfield.trans (reads_mark (c := '}') rfl hclose)
  | cons g fs ih =>
    intro f fields reading hback hawaits
    have hfield := @reads_field _ (hback f List.mem_cons_self) _ f.1 _ _ _ hawaits
      (delimited_cons (c := ',') (by decide) (fieldChars (g :: fs) ('}' :: rest)))
    have hcomma : Reads (afterField ((f.1, f.2.reread) :: fields) opened)
        (',' :: fieldChars (g :: fs) ('}' :: rest))
        (nextName ((f.1, f.2.reread) :: fields) opened)
        (fieldChars (g :: fs) ('}' :: rest)) := reads_mark rfl rfl
    have hfields := ih (fun i hi => hback i (List.mem_cons_of_mem f hi))
      (.next ((f.1, f.2.reread) :: fields) opened)
    simpa [fieldChars, rereadFields] using hfield.trans (hcomma.trans hfields)

/-- The text of a document is read as the document that is read back, wherever a value may come
next: by induction on the document, and along the items and fields of its arrays and objects. -/
theorem readsBack {j : Json} (h : Writable j) : ReadsBack j := by
  induction h with
  | null => exact readsBack_leaf (fun _ => rfl) (by decide) fun _ _ => rfl
  | bool b =>
    cases b with
    | true =>
      exact readsBack_leaf (fun _ => rfl) (by decide) fun _ _ => rfl
    | false =>
      exact readsBack_leaf (fun _ => rfl) (by decide) fun _ _ => rfl
  | integer h =>
    refine readsBack_leaf (fun _ => rfl) ?_ fun _ hrest => scanToken_integer h hrest
    rw [toList_toString]
    exact List.append_ne_nil_of_right_ne_nil _ Nat.toDigits_ne_nil
  | decimal negative h =>
    refine readsBack_leaf (fun _ => rfl) ?_ fun _ hrest => scanToken_decimal negative h hrest
    simp [decimalChars_ne_nil]
  | string text =>
    exact readsBack_leaf (j := string text) (fun _ => rfl) (quoted_ne_nil text)
      fun rest _ => scanToken_quoted text rest
  | @array items _ ih =>
    intro reading opened rest hawaits _
    have hopen : Reads reading ('[' :: itemChars items (']' :: rest)) (firstItem opened)
        (itemChars items (']' :: rest)) := reads_mark rfl hawaits.step_openArray
    cases items with
    | nil => exact hopen.trans (reads_mark rfl rfl)
    | cons j js => exact hopen.trans (reads_items (fun k => ih k) (.firstItem opened))
  | @object fields _ ih =>
    intro reading opened rest hawaits _
    have hopen : Reads reading ('{' :: fieldChars fields ('}' :: rest)) (firstName opened)
        (fieldChars fields ('}' :: rest)) := reads_mark rfl hawaits.step_openObject
    cases fields with
    | nil => exact hopen.trans (reads_mark rfl rfl)
    | cons f fs => exact hopen.trans (reads_fields (fun g => ih g) (.first opened))

end Reading

/-- **A document that is written is read back**, with its decimals as they are kept. -/
theorem parse?_render {j : Json} (h : Writable j) : parse? j.render = some j.reread := by
  have hreads := Reading.readsBack h (.value []) delimited_nil
  simpa [parse?, render] using Reading.ofChars?_of_reads hreads

end Formula.Json
