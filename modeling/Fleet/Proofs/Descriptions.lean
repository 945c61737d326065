import Fleet.Proofs.Attributes
import Fleet.Proofs.Configuration

/-!
# Descriptions that create an endpoint

Which descriptions of an endpoint are accepted, without the functions that read them. The type has
to be an unsigned integer, or a text that is its decimal numeral but for blanks at both ends and a
plus before it (`Endpoint.Params.Denotes`), and the function has to be one of the three by its name.
Then an endpoint is created, at any address that is not empty, and it is what the description says
(`Endpoint.create_eq_ok_iff`).

A change of an endpoint makes another one of it (`Patch.EndpointChange.Amends`). What a change
creates is what it makes of the endpoint that its description describes
(`Patch.EndpointChange.ofChange_eq_ok_iff`).
-/

namespace Fleet

/-! ### Numerals -/

namespace Text

variable {cs : List Char} {n limit : Nat}

/-- **A decimal numeral**: one or more ASCII digits, and the number that they denote. -/
structure IsNumeral (cs : List Char) (n : Nat) : Prop where
  nonempty : cs ≠ []
  digits : ∀ c ∈ cs, '0' ≤ c ∧ c ≤ '9'
  value : n = ofDigits 10 (cs.map fun c => c.toNat - '0'.toNat)

/-- **A numeral with at most one plus before it.** -/
def Spells (cs : List Char) (n : Nat) : Prop :=
  IsNumeral cs n ∨ ∃ digits, cs = '+' :: digits ∧ IsNumeral digits n

theorem mapM_decimalDigit?_eq_some_iff {ds : List Nat} : cs.mapM decimalDigit? = some ds ↔
    (∀ c ∈ cs, '0' ≤ c ∧ c ≤ '9') ∧ ds = cs.map fun c => c.toNat - '0'.toNat := by
  induction cs generalizing ds with
  | nil => simp [eq_comm]
  | cons c rest ih =>
    have hcons : (c :: rest).mapM decimalDigit? =
        (decimalDigit? c).bind fun d => (rest.mapM decimalDigit?).map (d :: ·) := by
      rw [List.mapM_cons]
      cases decimalDigit? c <;> cases rest.mapM decimalDigit? <;> rfl
    rw [hcons, List.forall_mem_cons, List.map_cons]
    by_cases hc : '0' ≤ c ∧ c ≤ '9'
    · have hdigit : decimalDigit? c = some (c.toNat - '0'.toNat) := if_pos hc
      rw [hdigit, Option.bind_some, Option.map_eq_some_iff]
      constructor
      · rintro ⟨later, hlater, rfl⟩
        obtain ⟨hrest, rfl⟩ := ih.mp hlater
        exact ⟨⟨hc, hrest⟩, rfl⟩
      · rintro ⟨⟨-, hrest⟩, rfl⟩
        exact ⟨_, ih.mpr ⟨hrest, rfl⟩, rfl⟩
    · have hdigit : decimalDigit? c = none := if_neg hc
      rw [hdigit, Option.bind_none]
      exact ⟨fun h => (nomatch h), fun h => absurd h.1.1 hc⟩

theorem numeral?_eq_some_iff : numeral? cs = some n ↔ IsNumeral cs n := by
  unfold numeral?
  constructor
  · intro h
    obtain ⟨hne, h⟩ := Option.ite_none_left_eq_some.mp h
    obtain ⟨ds, hds, rfl⟩ := Option.map_eq_some_iff.mp h
    obtain ⟨hdigits, rfl⟩ := mapM_decimalDigit?_eq_some_iff.mp hds
    exact ⟨fun hnil => hne (List.isEmpty_iff.mpr hnil), hdigits, rfl⟩
  · intro h
    rw [if_neg fun hempty => h.nonempty (List.isEmpty_iff.mp hempty),
      mapM_decimalDigit?_eq_some_iff.mpr ⟨h.digits, rfl⟩, h.value]
    rfl

/-- No numeral begins with a plus. -/
theorem not_isNumeral_plus {digits : List Char} : ¬ IsNumeral ('+' :: digits) n :=
  fun h => absurd (h.digits '+' List.mem_cons_self) (by decide)

/-- **What is read as a number** of limited size is a numeral with at most one plus before it. -/
theorem signless?_eq_some_iff : signless? limit cs = some n ↔ Spells cs n ∧ n ≤ limit := by
  unfold signless?
  rw [Option.filter_eq_some_iff, numeral?_eq_some_iff, decide_eq_true_iff]
  refine and_congr_left' ?_
  split
  · next rest =>
    refine ⟨fun h => .inr ⟨rest, rfl, h⟩, ?_⟩
    rintro (h | ⟨digits, heq, h⟩)
    · exact absurd h not_isNumeral_plus
    · cases heq
      exact h
  · next hplus =>
    refine ⟨.inl, ?_⟩
    rintro (h | ⟨digits, heq, -⟩)
    · exact h
    · exact absurd heq (hplus digits)

end Text

open Patch (EndpointChange)

namespace Endpoint

namespace Params

/-! ### Types and functions -/

/-- **The data denote a number**: they are an integer, or a text that is a numeral with at most one
plus before it, between blanks. -/
inductive Denotes (n : Nat) : Json → Prop where
  | integer {inRange : _} : Denotes n (.number (.int n inRange))
  | text {s : String} (h : Text.Spells (Text.trim s.toList) n) : Denotes n (.string s)

/-- **The type of an endpoint** is a number up to 255 that the data denote. -/
theorem typeOf?_eq_some_iff {raw : Value} {code : UInt8} :
    typeOf? raw = some code ↔ Denotes code.toNat raw.json := by
  -- both kinds of data are a number first, which has to be that of a byte
  have hcode : ∀ n : Nat, (n ≤ 255 ∧ UInt8.ofNat n = code) ↔ n = code.toNat := by
    intro n
    constructor
    · rintro ⟨hn, rfl⟩
      rw [UInt8.toNat_ofNat']
      omega
    · rintro rfl
      exact ⟨Nat.le_of_lt_succ code.toNat_lt, UInt8.ofNat_toNat⟩
  unfold typeOf?
  constructor
  · intro h
    split at h
    · next n hn =>
      obtain ⟨m, hm, hcast⟩ := Option.map_eq_some_iff.mp h
      obtain ⟨hnatural, hle⟩ := Option.filter_eq_some_iff.mp hm
      obtain rfl := (hcode m).mp ⟨of_decide_eq_true hle, hcast⟩
      rw [hn]
      unfold Json.Number.natural? at hnatural
      split at hnatural
      · cases hnatural
        exact .integer
      · cases hnatural
    · next s hs =>
      obtain ⟨m, hm, hcast⟩ := Option.map_eq_some_iff.mp h
      obtain ⟨hspells, hle⟩ := Text.signless?_eq_some_iff.mp hm
      obtain rfl := (hcode m).mp ⟨hle, hcast⟩
      rw [hs]
      exact .text hspells
    · cases h
  · intro h
    obtain ⟨hle, hcast⟩ := (hcode code.toNat).mpr rfl
    generalize raw.json = document at h
    cases h with
    | integer =>
      show (Option.filter _ (some code.toNat)).map _ = _
      rw [Option.filter_some, if_pos (decide_eq_true hle), Option.map_some, hcast]
    | text hspells =>
      show (Text.signless? 255 _).map _ = _
      rw [Text.signless?_eq_some_iff.mpr ⟨hspells, hle⟩, Option.map_some, hcast]

theorem requiredType_eq_ok_iff {params : Params} {code : UInt8} :
    params.requiredType = .ok code ↔
      ∃ raw, params.typeCode = some raw ∧ Denotes code.toNat raw.json := by
  simp only [← typeOf?_eq_some_iff]
  unfold requiredType
  cases params.typeCode with
  | none => exact ⟨fun h => (nomatch h), fun ⟨_, h, _⟩ => (nomatch h)⟩
  | some raw =>
    cases hcode : typeOf? raw with
    | none =>
      simp only [hcode, Option.some.injEq, exists_eq_left', reduceCtorEq]
    | some c => simp [hcode]

theorem requiredFunction_eq_ok_iff {params : Params} {function : Function} :
    params.requiredFunction = .ok function ↔ params.function = some function.name := by
  refine ⟨function_of_requiredFunction, fun h => ?_⟩
  unfold requiredFunction
  rw [h]
  cases function <;> rfl

/-- **The description is complete**: it says what type the endpoint has, and what function. -/
structure Complete (params : Params) : Prop where
  typed : ∃ raw code, params.typeCode = some raw ∧ Denotes (UInt8.toNat code) raw.json
  functional : ∃ function : Function, params.function = some function.name

/-! ### What is described -/

/-- **The bounds of a new sensor**: those of the description if it has both, else those that the
table has for the number. -/
structure Bounded (params : Params) (table : BoundsTable) (eid : Eid) (b : Bounds) : Prop where
  given : ∀ min max, params.minvalue = some min → params.maxvalue = some max → b = ⟨min, max⟩
  lookup : params.minvalue = none ∨ params.maxvalue = none → b = table.lookup eid

theorem bounded_iff {params : Params} {table : BoundsTable} {eid : Eid} {b : Bounds} :
    params.Bounded table eid b ↔ b = params.bounds table eid := by
  unfold Params.bounds
  constructor
  · intro h
    split
    · next min max hmin hmax => exact h.given min max hmin hmax
    · next hnot =>
      refine h.lookup ?_
      cases hmin : params.minvalue with
      | none => exact .inl rfl
      | some min =>
        cases hmax : params.maxvalue with
        | none => exact .inr rfl
        | some max => exact absurd hmax (hnot min max hmin)
  · rintro rfl
    refine ⟨fun min max hmin hmax => by rw [hmin, hmax], fun hnone => ?_⟩
    -- one bound alone does not count
    rcases hnone with hmin | hmax
    · rw [hmin]
    · rw [hmax]
      cases params.minvalue <;> rfl

/-- **The endpoint is the new one that the description describes**, with the value zero. -/
structure Describes (params : Params) (table : BoundsTable) (now : Time) (ip : String) (eid : Eid)
    (e : Endpoint) : Prop where
  address : e.ip = ip
  number : e.eid = eid
  typed : ∃ raw, params.typeCode = some raw ∧ Denotes e.typeCode.toNat raw.json
  functional : params.function = some e.function.name
  description : e.description = params.description.getD ""
  lastValue : e.lastValue = .zero
  lastUpdate : e.lastUpdate = now
  sensor : ∀ s, e.role = .sensor s → params.Bounded table eid s.bounds ∧ s.unit = params.unit

theorem role_eq_iff {params : Params} {table : BoundsTable} {eid : Eid} {function : Function}
    {role : Role} : role = params.role table eid function ↔ role.function = function ∧
      ∀ s, role = .sensor s → params.Bounded table eid s.bounds ∧ s.unit = params.unit := by
  simp only [bounded_iff]
  constructor
  · rintro rfl
    cases function with
    | sensor =>
      refine ⟨rfl, fun s hs => ?_⟩
      cases hs
      exact ⟨rfl, rfl⟩
    | actor => exact ⟨rfl, fun s hs => nomatch hs⟩
    | infrastructure => exact ⟨rfl, fun s hs => nomatch hs⟩
  · rintro ⟨rfl, hsensor⟩
    cases role with
    | sensor s =>
      obtain ⟨hbounds, hunit⟩ := hsensor s rfl
      obtain ⟨bounds, unit⟩ := s
      cases hbounds
      cases hunit
      rfl
    | actor => rfl
    | infrastructure => rfl

end Params

variable {table : BoundsTable} {now : Time} {ip : String} {eid : Eid} {params : Params}

/-- **What is created** is what the description describes, at an address that is not empty. -/
theorem create_eq_ok_iff {e : Endpoint} :
    create table now ip eid params = .ok e ↔ ip ≠ "" ∧ params.Describes table now ip eid e := by
  unfold create
  by_cases hip : ip = ""
  · rw [if_pos hip]
    exact ⟨fun h => (nomatch h), fun h => absurd hip h.1⟩
  · rw [if_neg hip, bind_eq_ok_iff]
    simp only [bind_eq_ok_iff, Params.requiredType_eq_ok_iff, Params.requiredFunction_eq_ok_iff]
    constructor
    · rintro ⟨code, htyped, function, hfunction, h⟩
      cases h
      obtain ⟨hrole, hsensor⟩ := Params.role_eq_iff.mp (Eq.refl (params.role table eid function))
      have hname : params.function = some (params.role table eid function).function.name := by
        rw [hrole, hfunction]
      exact ⟨hip, rfl, rfl, htyped, hname, rfl, rfl, rfl, hsensor⟩
    · rintro ⟨-, h⟩
      refine ⟨e.typeCode, h.typed, e.function, h.functional, ?_⟩
      have hrole : e.role = params.role table eid e.function :=
        Params.role_eq_iff.mpr ⟨rfl, h.sensor⟩
      rw [← hrole, ← h.address, ← h.number, ← h.description, ← h.lastValue, ← h.lastUpdate]

/-- **An endpoint is created** exactly if its description is complete and its address is not
empty. -/
theorem exists_create_iff :
    (∃ e, create table now ip eid params = .ok e) ↔ ip ≠ "" ∧ params.Complete := by
  constructor
  · rintro ⟨e, he⟩
    obtain ⟨hip, h⟩ := create_eq_ok_iff.mp he
    obtain ⟨raw, hraw, hcode⟩ := h.typed
    exact ⟨hip, ⟨raw, e.typeCode, hraw, hcode⟩, e.function, h.functional⟩
  · rintro ⟨hip, ⟨raw, code, hraw, hcode⟩, function, hfunction⟩
    unfold create
    rw [if_neg hip, Params.requiredType_eq_ok_iff.mpr ⟨raw, hraw, hcode⟩, ok_bind,
      Params.requiredFunction_eq_ok_iff.mpr hfunction, ok_bind]
    exact ⟨_, rfl⟩

/-! ### What is changed -/

/-- Endpoints are equal if they are in one place, of one nature and in one state. -/
theorem ext_nature {e e' : Endpoint} (hip : e.ip = e'.ip) (heid : e.eid = e'.eid)
    (hnature : e.nature = e'.nature) (hvalue : e.lastValue = e'.lastValue)
    (htime : e.lastUpdate = e'.lastUpdate) (hmin : e.minvalue = e'.minvalue)
    (hmax : e.maxvalue = e'.maxvalue) : e = e' := by
  obtain ⟨ip₁, eid₁, code₁, description₁, value₁, time₁, role₁⟩ := e
  obtain ⟨ip₂, eid₂, code₂, description₂, value₂, time₂, role₂⟩ := e'
  obtain ⟨hcode, hfunction, hdescription, hunit⟩ := Nature.mk.inj hnature
  -- the nature says which role it is, and what is left of a sensor is its bounds
  have hrole : role₁ = role₂ := by
    cases role₁ with
    | actor => cases role₂ <;> first | rfl | cases hfunction
    | infrastructure => cases role₂ <;> first | rfl | cases hfunction
    | sensor s₁ =>
      cases role₂ with
      | actor => cases hfunction
      | infrastructure => cases hfunction
      | sensor s₂ =>
        obtain ⟨⟨min₁, max₁⟩, unit₁⟩ := s₁
        obtain ⟨⟨min₂, max₂⟩, unit₂⟩ := s₂
        cases hmin
        cases hmax
        cases hunit
        rfl
  cases hip
  cases heid
  cases hcode
  cases hdescription
  cases hvalue
  cases htime
  cases hrole
  rfl

end Endpoint

namespace Patch.EndpointChange

variable {table : BoundsTable} {now : Time} {ip : String} {eid : Eid} {c : EndpointChange}

/-- **The change makes one endpoint of another**: it gives the value and its time and, if there are
any, the bounds, and what it does not give stays as it was. -/
structure Amends (c : EndpointChange) (e e' : Endpoint) : Prop where
  address : e'.ip = e.ip
  number : e'.eid = e.eid
  nature : e'.nature = e.nature
  lastValue : e'.lastValue = c.lastValue.getD e.lastValue
  lastUpdate : e'.lastUpdate = c.lastUpdate.getD e.lastUpdate
  minvalue : e'.minvalue = e.minvalue.map c.minvalue.getD
  maxvalue : e'.maxvalue = e.maxvalue.map c.maxvalue.getD

theorem amends_iff {e e' : Endpoint} : c.Amends e e' ↔ e' = e.update c := by
  have hupdate : c.Amends e (e.update c) := by
    refine ⟨rfl, rfl, Endpoint.nature_update e c, rfl, rfl, ?_, ?_⟩ <;>
    · obtain ⟨ip, eid, code, description, value, time, role⟩ := e
      cases role <;> rfl
  constructor
  · intro h
    exact Endpoint.ext_nature h.address h.number (h.nature.trans hupdate.nature.symm)
      (h.lastValue.trans hupdate.lastValue.symm) (h.lastUpdate.trans hupdate.lastUpdate.symm)
      (h.minvalue.trans hupdate.minvalue.symm) (h.maxvalue.trans hupdate.maxvalue.symm)
  · rintro rfl
    exact hupdate

/-- **The change creates the endpoint**: it makes it of the new one that its description
describes. -/
def Creates (c : EndpointChange) (table : BoundsTable) (now : Time) (ip : String) (eid : Eid)
    (e' : Endpoint) : Prop :=
  ∃ params e, c.params = some params ∧ params.Describes table now ip eid e ∧ c.Amends e e'

theorem ofChange_eq_ok_iff {e' : Endpoint} :
    Endpoint.ofChange table now ip eid c = .ok e' ↔ ip ≠ "" ∧ c.Creates table now ip eid e' := by
  unfold Endpoint.ofChange Creates
  cases hparams : c.params with
  | none => exact ⟨fun h => (nomatch h), fun ⟨_, _, _, h, _⟩ => (nomatch h)⟩
  | some params =>
    simp only [map_eq_ok_iff, Endpoint.create_eq_ok_iff, amends_iff, Option.some.injEq]
    constructor
    · rintro ⟨e, ⟨hip, hdescribes⟩, rfl⟩
      exact ⟨hip, params, e, rfl, hdescribes, rfl⟩
    · rintro ⟨hip, _, e, rfl, hdescribes, rfl⟩
      exact ⟨e, ⟨hip, hdescribes⟩, rfl⟩

theorem exists_ofChange_iff : (∃ e, Endpoint.ofChange table now ip eid c = .ok e) ↔
    ip ≠ "" ∧ ∃ params, c.params = some params ∧ params.Complete := by
  unfold Endpoint.ofChange
  cases hparams : c.params with
  | none => exact ⟨fun ⟨_, h⟩ => (nomatch h), fun ⟨_, _, h, _⟩ => (nomatch h)⟩
  | some params =>
    have hcreate : (∃ e, Endpoint.create table now ip eid params = .ok e) ↔
        ip ≠ "" ∧ params.Complete := Endpoint.exists_create_iff
    simp only [map_eq_ok_iff, Option.some.injEq, exists_eq_left']
    rw [← hcreate]
    constructor
    · rintro ⟨_, e, he, rfl⟩
      exact ⟨e, he⟩
    · rintro ⟨e, he⟩
      exact ⟨e.update c, e, he, rfl⟩

end Patch.EndpointChange

end Fleet
