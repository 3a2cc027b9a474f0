import JetCore.Lib.JsonRound
import JetCore.Ref.DbAdapter
import JetCore.Ref.Schemas

/-!
# `decode_order_created` against its schema

For a value with no undeclared properties, a text of it is decoded or refused
as the schema accepts or refuses the value, with two exceptions, both of valid
orders (`agrees_iff`). A quantity written as `2.0` or `2e0` is an integer of
the schema and a `float` of the scanner, which `isinstance(quantity, int)`
turns away; and an integer literal of more than 4300 digits is not converted.
-/

namespace JetCore

open Lib

/-- An object, if it is one, of declared properties. -/
def DeclaredOnly : Json → Prop
  | .obj fields =>
      ∀ f ∈ fields, f.1 ∈ ["orderId", "item", "quantity"].map Text.ofString
  | _ => True

def property (v : Json) (name : String) : Option Json :=
  match v with
  | .obj fields => Json.get? fields (Text.ofString name)
  | _ => none

/-- The request is what `v` says, with a quantity of 1 when it says none. -/
structure ReadsAs (v : Json) (r : OrderCreatedRequest) : Prop where
  orderId : property v "orderId" = some (.str r.orderId)
  item : property v "item" = some (.str r.item)
  quantity :
    ((property v "quantity").getD (.int 1)).number? = some (r.quantity : ℚ)

/-- The decoder decides the bytes as the schema decides the value. -/
structure Agrees (raw : Bytes) (v : Json) : Prop where
  accepts : (∃ r, decodeOrderCreated raw = .ok r) ↔
    Schema.Validates orderCreatedSchema v
  reads : ∀ r, decodeOrderCreated raw = .ok r → ReadsAs v r

/-- The quantity has no fraction and no exponent, and every integer is of at
most 4300 digits. -/
def WrittenPlainly (v : Json) : Prop :=
  Json.convertible v = true ∧ ∀ d, property v "quantity" ≠ some (.float d)

variable {raw : Bytes} {v : Json}

/-! ## The decoder -/

theorem getItem_eq (v : Json) (name : String) :
    (∃ x, property v name = some x ∧ getItem v name = .ok x) ∨
      property v name = none ∧
        (getItem v name = .error .keyError ∨
          getItem v name = .error .typeError) := by
  cases v with
  | obj fields =>
      rw [property, getItem]
      cases Json.get? fields (Text.ofString name) with
      | none => exact .inr ⟨rfl, .inl rfl⟩
      | some x => exact .inl ⟨x, rfl, rfl⟩
  | _ => exact .inr ⟨rfl, .inr rfl⟩

theorem getOr_eq (v : Json) (name : String) (default : Json) :
    getOr v name default = (property v name).getD default := by
  cases v with
  | obj fields => rfl
  | _ => rfl

theorem nonEmptyStr_ok {fault : PayloadFault} {t : Text} :
    nonEmptyStr fault v = .ok t ↔ v = .str t ∧ t ≠ [] := by
  cases v with
  | str s =>
      cases s with
      | nil =>
          constructor
          · intro h
            cases h
          · rintro ⟨h, hne⟩
            cases h
            exact absurd rfl hne
      | cons c s =>
          constructor
          · intro h
            cases h
            exact ⟨rfl, List.cons_ne_nil c s⟩
          · rintro ⟨h, -⟩
            cases h
            rfl
  | _ =>
      constructor
      · intro h
        cases h
      · rintro ⟨h, -⟩
        cases h

theorem positiveInt_ok {n : ℤ} :
    positiveInt v = .ok n ↔ v = .int n ∧ 1 ≤ n := by
  cases v with
  | int m =>
      rw [positiveInt]
      split
      · next hlow =>
          constructor
          · intro h
            cases h
          · rintro ⟨h, hpos⟩
            cases h
            omega
      · next hlow =>
          constructor
          · intro h
            cases h
            exact ⟨rfl, not_lt.mp hlow⟩
          · rintro ⟨h, -⟩
            cases h
            rfl
  | _ =>
      constructor
      · intro h
        cases h
      · rintro ⟨h, -⟩
        cases h

/-- What the checks ask of the properties of the value. -/
structure AcceptsOrder (v : Json) (r : OrderCreatedRequest) : Prop where
  orderId : property v "orderId" = some (.str r.orderId)
  orderId_ne : r.orderId ≠ []
  item : property v "item" = some (.str r.item)
  item_ne : r.item ≠ []
  quantity : (property v "quantity").getD (.int 1) = .int r.quantity
  positive : 1 ≤ r.quantity

/-- The three values of the `try` block. -/
theorem readOrderCreated_ok (hloads : jsonLoads raw = .ok v)
    {orderId item quantity : Json} :
    readOrderCreated raw = .ok (orderId, item, quantity) ↔
      property v "orderId" = some orderId ∧ property v "item" = some item ∧
        (property v "quantity").getD (.int 1) = quantity := by
  rw [readOrderCreated, hloads, ← getOr_eq]
  rcases getItem_eq v "orderId" with ⟨x, hx, hget⟩ | ⟨hx, hget⟩
  · rcases getItem_eq v "item" with ⟨y, hy, hget'⟩ | ⟨hy, hget'⟩
    · simp [bind, Except.bind, pure, Except.pure, hget, hget', hx, hy]
    · rcases hget' with hget' | hget' <;>
        simp [bind, Except.bind, hget, hget', hy]
  · rcases hget with hget | hget <;> simp [bind, Except.bind, hget, hx]

theorem decodeOrderCreated_ok (hloads : jsonLoads raw = .ok v)
    {r : OrderCreatedRequest} :
    decodeOrderCreated raw = .ok r ↔ AcceptsOrder v r := by
  constructor
  · intro h
    rw [decodeOrderCreated] at h
    cases hread : readOrderCreated raw with
    | error e => rw [hread] at h; cases h
    | ok values =>
        obtain ⟨orderId, item, quantity⟩ := values
        obtain ⟨hid, hitem, hquantity⟩ := (readOrderCreated_ok hloads).mp hread
        rw [hread] at h
        simp only [Except.mapError, bind, Except.bind] at h
        split at h
        · cases h
        · next orderId' hid' =>
            split at h
            · cases h
            · next item' hitem' =>
                split at h
                · cases h
                · next quantity' hquantity' =>
                    cases h
                    obtain ⟨rfl, hid_ne⟩ := nonEmptyStr_ok.mp hid'
                    obtain ⟨rfl, hitem_ne⟩ := nonEmptyStr_ok.mp hitem'
                    obtain ⟨rfl, hpos⟩ := positiveInt_ok.mp hquantity'
                    exact ⟨hid, hid_ne, hitem, hitem_ne, hquantity, hpos⟩
  · intro h
    have hread := (readOrderCreated_ok hloads).mpr
      ⟨h.orderId, h.item, h.quantity⟩
    rw [decodeOrderCreated, hread]
    simp only [Except.mapError, bind, Except.bind]
    rw [nonEmptyStr_ok.mpr ⟨rfl, h.orderId_ne⟩]
    simp only []
    rw [nonEmptyStr_ok.mpr ⟨rfl, h.item_ne⟩]
    simp only []
    rw [positiveInt_ok.mpr ⟨rfl, h.positive⟩]
    rfl

/-! ## The schema -/

theorem validates_orderCreated (hdecl : DeclaredOnly v) :
    Schema.Validates orderCreatedSchema v ↔
      (∃ orderId, property v "orderId" = some (.str orderId) ∧
        orderId ≠ []) ∧
      (∃ item, property v "item" = some (.str item) ∧ item ≠ []) ∧
      ∀ q, property v "quantity" = some q →
        ∃ n : ℤ, q.number? = some (n : ℚ) ∧ 1 ≤ n := by
  rw [orderCreatedSchema, Schema.validates_record]
  constructor
  · rintro ⟨fields, rfl, -, hrequired, hprops⟩
    have hstring : ∀ name ∈ ["orderId", "item"],
        ∃ t, property (.obj fields) name = some (.str t) ∧ t ≠ [] := by
      intro name hname
      obtain ⟨x, hx⟩ := Option.isSome_iff_exists.mp (hrequired name hname)
      have hin : (name, nonEmptyString) ∈ [("orderId", nonEmptyString),
          ("item", nonEmptyString),
          ("quantity", [.type .integer, .minimum 1])] := by
        simp only [List.mem_cons, List.not_mem_nil, or_false] at hname
        rcases hname with rfl | rfl <;> simp
      obtain ⟨t, rfl, hne⟩ := validates_nonEmptyString.mp (hprops _ hin x hx)
      exact ⟨t, hx, hne⟩
    refine ⟨hstring _ (by simp), hstring _ (by simp), fun q hq => ?_⟩
    exact (validates_atLeast 1).mp (hprops ("quantity", _) (by simp) q hq)
  · rintro ⟨⟨orderId, hid, hid_ne⟩, ⟨item, hitem, hitem_ne⟩, hquantity⟩
    cases v with
    | obj fields =>
        refine ⟨fields, rfl, hdecl, ?_, ?_⟩
        · intro name hname
          simp only [List.mem_cons, List.not_mem_nil, or_false] at hname
          rcases hname with rfl | rfl
          · exact Option.isSome_iff_exists.mpr ⟨_, hid⟩
          · exact Option.isSome_iff_exists.mpr ⟨_, hitem⟩
        · intro p hp x hx
          simp only [List.mem_cons, List.not_mem_nil, or_false] at hp
          rcases hp with rfl | rfl | rfl
          · cases hid.symm.trans hx
            exact validates_nonEmptyString.mpr ⟨_, rfl, hid_ne⟩
          · cases hitem.symm.trans hx
            exact validates_nonEmptyString.mpr ⟨_, rfl, hitem_ne⟩
          · exact (validates_atLeast 1).mpr (hquantity x hx)
    | _ => cases hid

/-! ## The two compared -/

/-- What the decoder accepts is valid, and says what is decoded. -/
theorem AcceptsOrder.validates {r : OrderCreatedRequest} (h : AcceptsOrder v r)
    (hdecl : DeclaredOnly v) : Schema.Validates orderCreatedSchema v := by
  refine (validates_orderCreated hdecl).mpr
    ⟨⟨_, h.orderId, h.orderId_ne⟩, ⟨_, h.item, h.item_ne⟩, fun q hq => ?_⟩
  have hquantity := h.quantity
  rw [hq, Option.getD_some] at hquantity
  exact ⟨r.quantity, by rw [hquantity]; rfl, h.positive⟩

theorem AcceptsOrder.readsAs {r : OrderCreatedRequest} (h : AcceptsOrder v r) :
    ReadsAs v r :=
  ⟨h.orderId, h.item, by rw [h.quantity]; rfl⟩

/-- The converse, for a quantity that is not a `float`. -/
theorem exists_accepts (hvalid : Schema.Validates orderCreatedSchema v)
    (hdecl : DeclaredOnly v)
    (hfloat : ∀ d, property v "quantity" ≠ some (.float d)) :
    ∃ r, AcceptsOrder v r := by
  obtain ⟨⟨orderId, hid, hid_ne⟩, ⟨item, hitem, hitem_ne⟩, hquantity⟩ :=
    (validates_orderCreated hdecl).mp hvalid
  cases hq : property v "quantity" with
  | none =>
      exact ⟨⟨orderId, item, 1⟩, hid, hid_ne, hitem, hitem_ne,
        by rw [hq]; rfl, le_refl 1⟩
  | some q =>
      obtain ⟨n, hn, hpos⟩ := hquantity q hq
      cases q with
      | int m =>
          have hm : m = n := by exact_mod_cast Option.some.inj hn
          subst hm
          exact ⟨⟨orderId, item, m⟩, hid, hid_ne, hitem, hitem_ne,
            by rw [hq]; rfl, hpos⟩
      | float d => exact absurd hq (hfloat d)
      | _ => cases hn

theorem not_accepts_float {d : Decimal} {r : OrderCreatedRequest}
    (hfloat : property v "quantity" = some (.float d)) : ¬ AcceptsOrder v r := by
  intro h
  have hquantity := h.quantity
  rw [hfloat] at hquantity
  cases hquantity

/-- On every text of a value with declared properties only, the decoder and
the schema agree exactly when a valid value is written plainly. -/
theorem agrees_iff {t : Text} (hwrites : Json.Writes t v)
    (hraw : Utf8.encode t = some raw) (hdecl : DeclaredOnly v) :
    Agrees raw v ↔
      (Schema.Validates orderCreatedSchema v → WrittenPlainly v) := by
  have hbytes : raw = t.flatMap Utf8.encodePoint := by
    rw [Utf8.encode] at hraw
    split at hraw
    · cases hraw
    · exact (Option.some.inj hraw).symm
  have hloads := Json.loads_writes hwrites
  rw [← hbytes] at hloads
  cases hconv : Json.convertible v with
  | false =>
      have hrefused : ∀ r, decodeOrderCreated raw ≠ .ok r := by
        intro r h
        rw [decodeOrderCreated, readOrderCreated, jsonLoads, hloads,
          hconv] at h
        cases h
      constructor
      · intro h hvalid
        obtain ⟨r, hr⟩ := h.accepts.mpr hvalid
        exact absurd hr (hrefused r)
      · intro h
        refine ⟨⟨?_, ?_⟩, fun r hr => absurd hr (hrefused r)⟩
        · rintro ⟨r, hr⟩
          exact absurd hr (hrefused r)
        · intro hvalid
          have hplain := (h hvalid).1
          rw [hconv] at hplain
          cases hplain
  | true =>
      have hread : jsonLoads raw = .ok v := by
        rw [jsonLoads, hloads, hconv]
        rfl
      constructor
      · intro h hvalid
        refine ⟨hconv, fun d hd => ?_⟩
        obtain ⟨r, hr⟩ := h.accepts.mpr hvalid
        exact not_accepts_float hd ((decodeOrderCreated_ok hread).mp hr)
      · intro h
        refine ⟨⟨?_, ?_⟩, fun r hr =>
          ((decodeOrderCreated_ok hread).mp hr).readsAs⟩
        · rintro ⟨r, hr⟩
          exact ((decodeOrderCreated_ok hread).mp hr).validates hdecl
        · intro hvalid
          obtain ⟨r, hr⟩ := exists_accepts hvalid hdecl (h hvalid).2
          exact ⟨r, (decodeOrderCreated_ok hread).mpr hr⟩

theorem declaredOnly_object {fields : List (String × Json)}
    (h : ∀ f ∈ fields, f.1 ∈ ["orderId", "item", "quantity"]) :
    DeclaredOnly (Json.object fields) := by
  intro f hf
  obtain ⟨g, hg, rfl⟩ := List.mem_map.mp hf
  exact List.mem_map_of_mem (h g hg)

/-- An order whose quantity is left out. -/
def bookOrder : Json :=
  Json.object [("orderId", Json.string "o-1"), ("item", Json.string "book")]

theorem writes_bookOrder :
    Json.Writes (Json.render Json.pythonStyle bookOrder) bookOrder :=
  Json.render_writes Json.pythonStyle (v := bookOrder) ⟨trivial, trivial, trivial⟩

theorem agrees_bookOrder :
    Agrees (Json.dumps bookOrder) bookOrder ↔
      (Schema.Validates orderCreatedSchema bookOrder →
        WrittenPlainly bookOrder) :=
  agrees_iff writes_bookOrder (by decide +kernel)
    (declaredOnly_object (by simp))

/-- `{"orderId": "o-1", "item": "book", "quantity": 2e0}` -/
def floatOrder : Json :=
  Json.object [("orderId", Json.string "o-1"), ("item", Json.string "book"),
    ("quantity", .float (.dec 2 0))]

/-- Two of a book, with an exponent: valid, and refused. -/
theorem floatOrder_refused :
    Json.Writes (Json.render Json.pythonStyle floatOrder) floatOrder ∧
      Utf8.encode (Json.render Json.pythonStyle floatOrder) =
        some (Json.dumps floatOrder) ∧
      DeclaredOnly floatOrder ∧
      Schema.Validates orderCreatedSchema floatOrder ∧
      ¬ Agrees (Json.dumps floatOrder) floatOrder := by
  have hdecl : DeclaredOnly floatOrder := declaredOnly_object (by simp)
  have hvalid : Schema.Validates orderCreatedSchema floatOrder := by
    refine (validates_orderCreated hdecl).mpr ⟨⟨Text.ofString "o-1", rfl,
      List.cons_ne_nil _ _⟩, ⟨Text.ofString "book", rfl,
      List.cons_ne_nil _ _⟩, fun q hq => ?_⟩
    cases hq
    exact ⟨2, by simp [Json.number?, Decimal.value?], by decide⟩
  have hraises : decodeOrderCreated (Json.dumps floatOrder) =
      .error (.malformedPayloadError .quantity) := by decide +kernel
  refine ⟨Json.render_writes Json.pythonStyle (v := floatOrder)
    ⟨trivial, trivial, trivial, trivial⟩, by decide +kernel, hdecl, hvalid,
    fun h => ?_⟩
  obtain ⟨r, hr⟩ := h.accepts.mpr hvalid
  rw [hraises] at hr
  cases hr

end JetCore
