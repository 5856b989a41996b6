import HttpsTest.Config.ConfigFactory

/-!
# Looking up keys

`get_value` takes the key up to the next NUL of its buffer. `getValue_iff`: it answers for the
characters of the view exactly if the view has no NUL and stands in front of one, or the two texts
have the same entry. `fromString_iff` says when a configuration answers for the members of its JSON
object: integers are narrowed to 32 bits.
-/

set_option autoImplicit false

namespace HttpsTest

/-! ## Views -/

namespace StringView

/-- The view has no NUL, and a NUL follows it. -/
structure Terminated (v : StringView) : Prop where
  noNul : 0 ∉ v.chars
  ended : ∀ c ∈ (v.buffer.drop (v.offset + v.size)).head?, c = 0

/-- The C string of a view is the view exactly if it is terminated. -/
theorem cString_eq_iff (v : StringView) : v.cString = v.chars ↔ v.Terminated := by
  have hsplit : v.buffer.drop v.offset = v.chars ++ v.buffer.drop (v.offset + v.size) := by
    rw [chars, ← List.drop_drop, List.take_append_drop]
  rw [cString, hsplit, Search.takeWhile_append_eq_iff]
  exact ⟨fun h => ⟨h.1, h.2⟩, fun h => ⟨h.1, h.2⟩⟩

theorem chars_ofBytes (s : Bytes) : (ofBytes s).chars = s := by
  rw [chars, ofBytes, List.drop_zero, List.take_length]

theorem cString_of_notMem {s : Bytes} (hs : 0 ∉ s) : (ofBytes s).cString = s :=
  Search.takeWhile_of_notMem hs

theorem notMem_cString (v : StringView) : 0 ∉ v.cString := Search.notMem_takeWhile 0 _

end StringView

/-! ## Keys -/

namespace JSONConfig

/-- The configuration answers for the characters of the view. -/
structure AnswersView (c : JSONConfig) (v : StringView) : Prop where
  value : c.getValue v = c.config.lookup v.chars
  typed : ∀ t, c.getAs t v = extract t (c.config.lookup v.chars)

/-- **Keys that are views**: the configuration answers for the characters of the view exactly if the
view is terminated, or the text up to the next NUL has the same entry, or none as well; and every
configuration does exactly if the view is terminated. -/
theorem getValue_iff (v : StringView) :
    (∀ c : JSONConfig, c.AnswersView v ↔
      v.Terminated ∨ c.config.lookup v.cString = c.config.lookup v.chars) ∧
    ((∀ c : JSONConfig, c.AnswersView v) ↔ v.Terminated) := by
  have hiff (c : JSONConfig) : c.AnswersView v ↔
      v.Terminated ∨ c.config.lookup v.cString = c.config.lookup v.chars := by
    refine ⟨fun h => .inr h.value, fun h => ?_⟩
    have hvalue : c.getValue v = c.config.lookup v.chars := by
      rcases h with h | h
      · exact congrArg (c.config.lookup ·) (v.cString_eq_iff.2 h)
      · exact h
    exact ⟨hvalue, fun t => congrArg (extract t) hvalue⟩
  refine ⟨hiff, fun hall => ?_, fun h c => (hiff c).2 (.inl h)⟩
  -- a configuration with the one key
  have hone := (hall ⟨AList.insert v.chars (.bool true) ∅⟩).value
  rw [← v.cString_eq_iff]
  by_contra hne
  rw [getValue, findValue, AList.lookup_insert_ne hne, AList.lookup_insert] at hone
  cases hone

/-- The key `port` in front of more text, or with a NUL in it, is not found. -/
theorem sliced_key_missed :
    ¬ AnswersView ⟨AList.insert (bytes "port") (.int 8080) ∅⟩
        ⟨bytes "port=8080", 0, 4, by decide⟩ ∧
      ¬ AnswersView ⟨AList.insert (bytes "a\x00b") (.int 8080) ∅⟩ (.ofBytes "a\x00b") :=
  ⟨fun h => absurd h.value (by decide +kernel), fun h => absurd h.value (by decide +kernel)⟩

/-! ## Members of a JSON object -/

section
variable {J : JsonText}

/-- What the loop of `PopulateConfig` leaves, where every value can be stored. -/
theorem populate_spec {items : List (Bytes × Json)} (hnames : (items.map Prod.fst).Nodup)
    (hstored : ∀ x ∈ items, ∃ e, configValue J x.2 = .ok e) (config : UnorderedMap ConfigValue) :
    ∃ config', populate J items config = .ok config' ∧
      (∀ x ∈ items, ∃ e, configValue J x.2 = .ok e ∧ config'.lookup x.1 = some e) ∧
      ∀ key, key ∉ items.map Prod.fst → config'.lookup key = config.lookup key := by
  induction items generalizing config with
  | nil => exact ⟨config, rfl, nofun, fun _ _ => rfl⟩
  | cons x items ih =>
    obtain ⟨key, value⟩ := x
    obtain ⟨e, he⟩ := hstored _ List.mem_cons_self
    rw [List.map_cons, List.nodup_cons] at hnames
    obtain ⟨config', hpopulate, hmem, hother⟩ := ih hnames.2
      (fun x hx => hstored x (List.mem_cons_of_mem _ hx)) (config.insert key e)
    refine ⟨config', by rw [populate, he]; exact hpopulate, fun x hx => ?_, fun k hk => ?_⟩
    · rcases List.mem_cons.1 hx with rfl | hx
      · exact ⟨e, he, by rw [hother _ hnames.1, AList.lookup_insert]⟩
      · exact hmem x hx
    · rw [List.map_cons, List.mem_cons, not_or] at hk
      rw [hother k hk.2, AList.lookup_insert_ne hk.1]

end

/-- The integer is a 32-bit `int`. -/
def FitsInt (n : Int) : Prop := -2 ^ 31 ≤ n ∧ n < 2 ^ 31

/-- `static_cast<int>` keeps exactly the integers that fit. -/
theorem toInt_ofInt_iff {n : Int} : (Int32.ofInt n).toInt = n ↔ FitsInt n := by
  refine ⟨fun h => ?_, fun h => Int32.toInt_ofInt_of_le h.1 h.2⟩
  rw [← h]
  exact ⟨Int32.le_toInt _, Int32.toInt_lt _⟩

/-- The answers for the four types, as the value of a member has them: that of its own type is the
value, an integer that does not fit is not given as another, and the other types have none. The
text of a null, an array or an object is left open. -/
def Answered (v : Option Json) (answer : (t : ConfigType) → Option t.Carrier) : Prop :=
  match v with
  | none => ∀ t, answer t = none
  | some (.string s) => answer .string = some s ∧ ∀ t, t ≠ .string → answer t = none
  | some (.boolean b) => answer .bool = some b ∧ ∀ t, t ≠ .bool → answer t = none
  | some (.floating q) => answer .double = some q ∧ ∀ t, t ≠ .double → answer t = none
  | some (.integer n) =>
    (FitsInt n → ∃ m, answer .int = some m ∧ m.toInt = n) ∧
      (∀ m, answer .int = some m → m.toInt = n) ∧ ∀ t, t ≠ .int → answer t = none
  | some _ => ∀ t, t ≠ .string → answer t = none

/-- The entry that answers for the value. -/
def Serves (v : Option Json) (e : Option ConfigValue) : Prop :=
  match v with
  | none => e = none
  | some (.string s) => e = some (.string s)
  | some (.boolean b) => e = some (.bool b)
  | some (.floating q) => e = some (.double q)
  | some (.integer n) => e = none ∧ ¬ FitsInt n ∨ ∃ m, e = some (.int m) ∧ m.toInt = n
  | some _ => e = none ∨ ∃ s, e = some (.string s)

theorem forall_configType {P : ConfigType → Prop} :
    (∀ t, P t) ↔ P .int ∧ P .double ∧ P .bool ∧ P .string :=
  ⟨fun h => ⟨h _, h _, h _, h _⟩, fun h t => by cases t <;> simp only [h]⟩

theorem answered_iff (v : Option Json) (e : Option ConfigValue) :
    Answered v (fun t => extract t e) ↔ Serves v e := by
  unfold Answered Serves
  simp only [forall_configType]
  cases v with
  | none => rcases e with _ | _ | _ | _ | _ <;> simp [extract]
  | some v =>
    cases v with
    | integer n =>
      rcases e with _ | _ | _ | _ | _ <;> simp [extract]
      exact fun h _ => h
    | _ => rcases e with _ | _ | _ | _ | _ <;> simp [extract]

theorem configValue_ok {J : JsonText} {v : Json} (hdump : ∃ t, J.dump v = .ok t) :
    ∃ e, configValue J v = .ok e := by
  obtain ⟨t, ht⟩ := hdump
  cases v with
  | null | array | object => exact ⟨.string t, by simp [configValue, ht, Except.map]⟩
  | _ => exact ⟨_, rfl⟩

/-- A configuration has an entry for each member of its value, and no others. -/
theorem ofJson_spec {J : JsonText} (v : Json) (hnames : (v.items.map Prod.fst).Nodup)
    (hdump : ∀ x ∈ v.items, ∃ t, J.dump x.2 = .ok t) : ∃ c, ofJson J v = .ok c ∧
      (∀ x ∈ v.items, ∃ e, configValue J x.2 = .ok e ∧ c.config.lookup x.1 = some e) ∧
      ∀ key, key ∉ v.items.map Prod.fst → c.config.lookup key = none := by
  obtain ⟨config, hpopulate, hmem, hother⟩ := populate_spec hnames
    (fun x hx => configValue_ok (hdump x hx)) ∅
  refine ⟨⟨config⟩, ?_, hmem, fun key hkey => (hother key hkey).trans (AList.lookup_empty key)⟩
  unfold ofJson
  rw [hpopulate]
  rfl

section
variable {J : JsonText} {text : Bytes} {ms : List (Bytes × Json)}
  (hparse : J.parse text = .ok (.object ms)) (hnames : (ms.map Prod.fst).Nodup)
  (hdump : ∀ x ∈ ms, ∃ t, J.dump x.2 = .ok t)

include hparse hnames hdump

/-- The entry a key is answered with. -/
theorem fromString_lookup : ∃ c, fromString J text = .ok c ∧ ∀ key, c.config.lookup key =
    (ms.lookup key).bind fun v => (configValue J v).toOption := by
  obtain ⟨c, hc, hmem, hother⟩ := ofJson_spec (.object ms) hnames hdump
  refine ⟨c, by rw [fromString, hparse]; exact hc, fun key => ?_⟩
  cases hlookup : ms.lookup key with
  | none =>
    apply hother
    intro hkey
    obtain ⟨x, hx, rfl⟩ := List.mem_map.1 hkey
    simpa using List.lookup_eq_none_iff.1 hlookup x hx
  | some v =>
    obtain ⟨front, back, rfl, -⟩ := List.lookup_eq_some_iff.1 hlookup
    obtain ⟨e, he, hentry⟩ := hmem (key, v) (by simp [Json.items])
    rw [hentry, Option.bind_some, he]
    rfl

/-- **Members of a JSON object**: the configuration answers for a key as its member has it exactly
if the entry under the key's part in front of its first NUL does; for a key without a NUL exactly
if the member is no integer that does not fit an `int`. -/
theorem fromString_iff : ∃ c, fromString J text = .ok c ∧ ∀ key,
    (Answered (ms.lookup key) (fun t => c.getAs t (.ofBytes key)) ↔
      Serves (ms.lookup key) ((ms.lookup (key.takeWhile (· ≠ 0))).bind fun v =>
        (configValue J v).toOption)) ∧
    (0 ∉ key → (Answered (ms.lookup key) (fun t => c.getAs t (.ofBytes key)) ↔
      ∀ n, ms.lookup key = some (.integer n) → FitsInt n)) := by
  obtain ⟨c, hc, hlookup⟩ := fromString_lookup hparse hnames hdump
  refine ⟨c, hc, fun key => ?_⟩
  have hserves : Answered (ms.lookup key) (fun t => c.getAs t (.ofBytes key)) ↔
      Serves (ms.lookup key) ((ms.lookup (key.takeWhile (· ≠ 0))).bind fun v =>
        (configValue J v).toOption) := by
    rw [← hlookup]
    exact answered_iff _ _
  refine ⟨hserves, fun hkey => hserves.trans ?_⟩
  rw [Search.takeWhile_of_notMem hkey]
  cases hv : ms.lookup key with
  | none => simp [Serves]
  | some v =>
    obtain ⟨front, back, hms, -⟩ := List.lookup_eq_some_iff.1 hv
    obtain ⟨t, ht⟩ := hdump (key, v) (by simp [hms])
    cases v with
    | integer n =>
      have hself : Serves (some (.integer n)) (some (.int (.ofInt n))) ↔ FitsInt n := by
        rw [← toInt_ofInt_iff]
        simp [Serves]
      refine hself.trans ⟨fun h k hk => ?_, fun h => h n rfl⟩
      cases hk
      exact h
    | _ => simp [Serves, configValue, ht, Except.map, Except.toOption]

end

/-- The members of a configuration. -/
def hostMembers : List (Bytes × Json) :=
  [(bytes "host", .string "a"), (bytes "port", .integer 8080), (bytes "quiet", .boolean true)]

def hostText : Bytes := "\x7b\"host\":\"a\",\"port\":8080,\"quiet\":true\x7d"

/-- The texts of two objects, and of their members. -/
def fewTexts : JsonText where
  parse text :=
    if text = hostText then .ok (.object hostMembers)
    else if text = bytes "\x7b\"port\":4294975376\x7d" then
      .ok (.object [(bytes "port", .integer 4294975376)])
    else .error .parseError
  dump
    | .integer n => .ok (decimal n)
    | .boolean b => .ok (if b then "true" else "false")
    | .string s => .ok (bytes "\"" ++ s ++ bytes "\"")
    | _ => .error (.typeError 316)

theorem port_answered : ∃ c, fromString fewTexts hostText = .ok c ∧
    Answered (some (.integer 8080)) (fun t => c.getAs t (.ofBytes "port")) ∧
    Answered (some (.string "a")) (fun t => c.getAs t (.ofBytes "host")) := by
  have hparse : fewTexts.parse hostText = .ok (.object hostMembers) := by
    simp [fewTexts]
  obtain ⟨c, hc, hkeys⟩ := fromString_iff hparse (by decide) (by simp [fewTexts, hostMembers])
  have hport := (hkeys "port").2 (by decide)
  have hhost := (hkeys "host").2 (by decide)
  rw [show hostMembers.lookup (bytes "port") = some (.integer 8080) by rfl] at hport
  rw [show hostMembers.lookup (bytes "host") = some (.string "a") by rfl] at hhost
  exact ⟨c, hc, hport.2 fun n hn => by cases hn; unfold FitsInt; decide,
    hhost.2 fun n hn => by cases hn⟩

/-- The port 2^32 + 8080 is read as 8080. -/
theorem port_narrowed : ∃ c, fromString fewTexts "\x7b\"port\":4294975376\x7d" = .ok c ∧
    c.getAs .int (.ofBytes "port") = some 8080 ∧
    ¬ Answered (some (.integer 4294975376)) (fun t => c.getAs t (.ofBytes "port")) :=
  ⟨⟨AList.insert (bytes "port") (.int (.ofInt 4294975376)) ∅⟩, rfl, by decide +kernel,
    fun h => absurd (h.2.1 8080 (by decide +kernel)) (by decide)⟩

end JSONConfig

end HttpsTest
