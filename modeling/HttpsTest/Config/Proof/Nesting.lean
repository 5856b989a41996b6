import HttpsTest.Http.Proof.Decoding
import HttpsTest.Config.Proof.Lookup

/-!
# Nested configurations

An object or array in a configuration is kept as its text and opened again by `ConfigFactory::get`.
`opens_iff`: along every path of members the configurations that are opened answer as ones built
directly from the nested values exactly if no member's name has a NUL, or the entry under the part
of the name in front of it happens to have the same entries.
-/

set_option autoImplicit false

namespace HttpsTest

/-! ## What the library keeps -/

def Json.isContainer : Json → Bool
  | .object _ => true
  | .array _ => true
  | _ => false

/-- The text of an object or array stands in its brackets. -/
def Bracketed (t : Bytes) : Json → Prop
  | .object _ => startsWith t "\x7b" = true ∧ endsWith t "\x7d" = true
  | .array _ => startsWith t "[" = true ∧ endsWith t "]" = true
  | _ => True

/-- The value is written, without white space around it, and parsed as it was. -/
def JsonText.Writes (J : JsonText) (v : Json) : Prop :=
  ∃ t, J.dump v = .ok t ∧ J.parse t = .ok v ∧ Bracketed t v

/-- A value as the library holds it, with its parts: the names of an object are distinct. -/
inductive Json.Held (J : JsonText) : Json → Prop
  | mk {v : Json} : J.Writes v → (∀ ms, v = .object ms → (ms.map Prod.fst).Nodup) →
      (v.isContainer = true → ∀ x ∈ v.items, Held J x.2) → Held J v

variable {J : JsonText}

theorem decimal_injective {m n : Int} (h : decimal m = decimal n) : m = n := by
  have := readInt_decimal m
  rw [h, readInt_decimal] at this
  exact (Option.some.inj this).symm

theorem Json.Held.names {v : Json} (h : v.Held J) : (v.items.map Prod.fst).Nodup := by
  cases h with
  | mk _ hnames _ =>
    cases v with
    | object ms => exact hnames ms rfl
    | array xs =>
      have hindices : (items (.array xs)).map Prod.fst =
          (List.range' 0 xs.length).map fun i : Nat => decimal i := by
        rw [items, List.map_map, ← List.zipIdx_map_snd 0 xs, List.map_map]
        rfl
      rw [hindices]
      refine List.Nodup.map (fun i j hij => ?_) List.nodup_range'
      exact Int.ofNat.inj (decimal_injective hij)
    | null => exact List.nodup_nil
    | _ => exact List.nodup_singleton _

/-! ## Opening a member -/

open JSONConfig

/-- The two answer alike for every key. -/
def SameAnswers (c c' : IConfig) : Prop := ∀ key, c.getValue key = c'.getValue key

/-- `ConfigFactory::get(*config.get_as<std::string>(member), true)`; without a text the optional is
dereferenced empty. -/
def openMember (J : JsonText) (read : Bytes → Option Bytes) (c : IConfig) (member : Bytes) :
    Except Exn IConfig :=
  match c.getAs .string (.ofBytes member) with
  | none => .error .nullDereference
  | some text => ConfigFactory.get J read (.ofBytes text) true

/-- The member is opened, and answers as a configuration built directly from its value. -/
def OpensAs (J : JsonText) (read : Bytes → Option Bytes) (c : IConfig) (member : Bytes) (w : Json)
    (c' : IConfig) : Prop :=
  openMember J read c member = .ok c' ∧ ∃ d, ofJson J w = .ok d ∧ SameAnswers c' (.json d)

/-- The entries of the two values agree under every key without a NUL. -/
def SameEntries (J : JsonText) (x w : Json) : Prop :=
  ∃ a b, ofJson J x = .ok a ∧ ofJson J w = .ok b ∧
    ∀ key, 0 ∉ key → a.config.lookup key = b.config.lookup key

/-- The text is that of a value with the entries of `w`; an XML text has none. -/
def TextOf (J : JsonText) (t : Bytes) (w : Json) : Prop :=
  (ConfigFactory.isJson t = true ∧ ∃ x, J.parse t = .ok x ∧ SameEntries J x w) ∨
    (ConfigFactory.isJson t = false ∧ (startsWith t "<" && endsWith t ">") = true ∧
      ∀ x ∈ w.items, 0 ∈ x.1)

/-- The entry under the part of the name in front of its first NUL is a text of the value. -/
def Stands (J : JsonText) (v : Json) (member : Bytes) (w : Json) : Prop :=
  ∃ u t, (member.takeWhile (· ≠ 0), u) ∈ v.items ∧ configValue J u = .ok (.string t) ∧
    TextOf J t w

theorem findValue_same_iff {m m' : UnorderedMap ConfigValue} :
    (∀ key, findValue m key = findValue m' key) ↔
      ∀ key, 0 ∉ key → m.lookup key = m'.lookup key := by
  refine ⟨fun h key hkey => ?_, fun h key => h _ key.notMem_cString⟩
  have hkeys := h (.ofBytes key)
  rwa [findValue, findValue, StringView.cString_of_notMem hkey] at hkeys

theorem SameAnswers.openMember {read : Bytes → Option Bytes} {c c' : IConfig} (h : SameAnswers c c')
    (member : Bytes) : openMember J read c member = HttpsTest.openMember J read c' member := by
  unfold HttpsTest.openMember IConfig.getAs
  rw [h]

/-- What a configuration built directly from a value the library holds has as entries. -/
theorem Json.Held.ofJson {v : Json} (h : v.Held J) (hv : v.isContainer = true) :
    ∃ c, JSONConfig.ofJson J v = .ok c ∧
      (∀ x ∈ v.items, ∃ e, configValue J x.2 = .ok e ∧ c.config.lookup x.1 = some e) ∧
      ∀ key, key ∉ v.items.map Prod.fst → c.config.lookup key = none := by
  refine ofJson_spec v h.names fun x hx => ?_
  cases h with
  | mk _ _ hparts =>
    cases hparts hv x hx with
    | mk hwritten _ _ =>
      obtain ⟨t, ht, -⟩ := hwritten
      exact ⟨t, ht⟩

theorem extract_string_iff {e : Option ConfigValue} {t : Bytes} :
    extract .string e = some t ↔ e = some (.string t) := by
  rcases e with _ | _ | _ | _ | _ <;> simp [extract]

/-- The text a member is opened from. -/
theorem getAs_string_iff {v : Json} (h : v.Held J) (hv : v.isContainer = true) {d : JSONConfig}
    (hd : ofJson J v = .ok d) {member t : Bytes} :
    IConfig.getAs .string (.json d) (.ofBytes member) = some t ↔
      ∃ u, (member.takeWhile (· ≠ 0), u) ∈ v.items ∧ configValue J u = .ok (.string t) := by
  obtain ⟨d', hd', hmem, hother⟩ := h.ofJson hv
  cases hd.symm.trans hd'
  have hextract : IConfig.getAs .string (.json d) (.ofBytes member) = some t ↔
      d.config.lookup (member.takeWhile (· ≠ 0)) = some (.string t) := extract_string_iff
  rw [hextract]
  refine ⟨fun hlookup => ?_, fun ⟨u, hu, hut⟩ => ?_⟩
  · by_cases hin : member.takeWhile (· ≠ 0) ∈ v.items.map Prod.fst
    · obtain ⟨⟨name, u⟩, hu, hname⟩ := List.mem_map.1 hin
      obtain ⟨e, he, hentry⟩ := hmem _ hu
      simp only at hname he hentry
      subst hname
      cases hlookup.symm.trans hentry
      exact ⟨u, hu, he⟩
    · rw [hother _ hin] at hlookup
      cases hlookup
  · obtain ⟨e, he, hentry⟩ := hmem _ hu
    cases hut.symm.trans he
    exact hentry

/-- The configuration that a JSON text is opened as answers as the one of `d`. -/
theorem jsonText_iff {t : Bytes} {w : Json} {d : JSONConfig} (hd : ofJson J w = .ok d) :
    (∃ c', (J.parse t >>= ofJson J).map IConfig.json = .ok c' ∧ SameAnswers c' (.json d)) ↔
      ∃ x, J.parse t = .ok x ∧ SameEntries J x w := by
  refine ⟨fun ⟨c', hc', hsame⟩ => ?_, fun ⟨x, hparse, a, b, ha, hb, hsame⟩ => ?_⟩
  · cases ha : J.parse t >>= ofJson J with
    | error e =>
      rw [ha] at hc'
      cases hc'
    | ok a =>
      rw [ha] at hc'
      cases hc'
      obtain ⟨x, hparse, hx⟩ := bind_ok ha
      exact ⟨x, hparse, a, d, hx, hd, findValue_same_iff.1 hsame⟩
  · cases hd.symm.trans hb
    refine ⟨.json a, ?_, findValue_same_iff.2 hsame⟩
    rw [hparse, ok_bind, ha]
    rfl

/-- An XML configuration has no entries. -/
theorem xml_sameAnswers_iff {w : Json} (h : w.Held J) (hw : w.isContainer = true) {d : JSONConfig}
    (hd : ofJson J w = .ok d) : SameAnswers (.xml {}) (.json d) ↔ ∀ x ∈ w.items, 0 ∈ x.1 := by
  obtain ⟨d', hd', hmem, hother⟩ := h.ofJson hw
  cases hd.symm.trans hd'
  refine ⟨fun hsame x hx => ?_, fun hnul => findValue_same_iff.2 fun key hkey => ?_⟩
  · by_contra hclean
    obtain ⟨e, -, hentry⟩ := hmem x hx
    have hnone := findValue_same_iff.1 hsame x.1 hclean
    rw [hentry] at hnone
    cases hnone
  · rw [hother key, AList.lookup_empty]
    intro hin
    obtain ⟨x, hx, rfl⟩ := List.mem_map.1 hin
    exact hkey (hnul x hx)

/-- A text is opened as a configuration with the entries of `w`. -/
theorem textOf_iff (read : Bytes → Option Bytes) {t : Bytes} {w : Json} (h : w.Held J)
    (hw : w.isContainer = true) : (∃ c', ConfigFactory.get J read (.ofBytes t) true = .ok c' ∧
      ∃ d, ofJson J w = .ok d ∧ SameAnswers c' (.json d)) ↔ TextOf J t w := by
  obtain ⟨d, hd, -⟩ := h.ofJson hw
  have hget : ConfigFactory.get J read (.ofBytes t) true =
      if ConfigFactory.isJson t then (J.parse t >>= ofJson J).map .json
      else if startsWith t "<" && endsWith t ">" then .ok (.xml {}) else .error .runtimeError := by
    simp only [ConfigFactory.get, ConfigFactory.getFromString, if_true, StringView.chars_ofBytes]
    rfl
  have hanswers (c' : IConfig) :
      (∃ d, ofJson J w = .ok d ∧ SameAnswers c' (.json d)) ↔ SameAnswers c' (.json d) := by
    refine ⟨fun ⟨d', hd', hsame⟩ => ?_, fun hsame => ⟨d, hd, hsame⟩⟩
    cases hd.symm.trans hd'
    exact hsame
  simp only [hget, hanswers]
  unfold TextOf
  cases ConfigFactory.isJson t with
  | true => simpa using jsonText_iff hd
  | false =>
    simp only [Bool.false_eq_true, if_false, false_and, false_or, true_and]
    rw [← xml_sameAnswers_iff h hw hd]
    cases startsWith t "<" && endsWith t ">" with
    | true => simp
    | false => simp

/-- A nested value whose name has no NUL is found under its own text. -/
theorem stands_of_notMem {v w : Json} {member : Bytes} (hw : w.Held J)
    (hcontainer : w.isContainer = true) (hmem : (member, w) ∈ v.items) (hmember : 0 ∉ member) :
    Stands J v member w := by
  obtain ⟨d, hd, -⟩ := hw.ofJson hcontainer
  cases hw with
  | mk hwritten _ _ =>
    obtain ⟨t, hdump, hparse, hbrackets⟩ := hwritten
    have hentries : SameEntries J w w := ⟨d, d, hd, hd, fun _ _ => rfl⟩
    refine ⟨w, t, by rwa [Search.takeWhile_of_notMem hmember], ?_, .inl ⟨?_, w, hparse, hentries⟩⟩
    · cases w with
      | object | array => simp [configValue, hdump, Except.map]
      | _ => cases hcontainer
    · cases w with
      | object | array =>
        obtain ⟨hfront, hback⟩ := hbrackets
        have hne : t.isEmpty = false := by
          cases t with
          | nil => cases hfront
          | cons => rfl
        simp [ConfigFactory.isJson, hne, hfront, hback]
      | _ => cases hcontainer

/-- **One member** of a configuration that answers as one built from `v`. -/
theorem opensAs_iff (read : Bytes → Option Bytes) {v w : Json} (h : v.Held J)
    (hv : v.isContainer = true) {d : JSONConfig} (hd : ofJson J v = .ok d) {c : IConfig}
    (hsame : SameAnswers c (.json d)) {member : Bytes} (hmem : (member, w) ∈ v.items)
    (hw : w.isContainer = true) :
    (∃ c', OpensAs J read c member w c') ↔ 0 ∉ member ∨ Stands J v member w := by
  have hheld : w.Held J := by
    cases h with
    | mk _ _ hparts => exact hparts hv _ hmem
  have hstands : (∃ c', OpensAs J read c member w c') ↔ Stands J v member w := by
    unfold OpensAs Stands
    rw [hsame.openMember]
    refine ⟨fun ⟨c', hopen, hanswers⟩ => ?_, fun ⟨u, t, hu, hut, htext⟩ => ?_⟩
    · unfold openMember at hopen
      cases ht : IConfig.getAs .string (.json d) (.ofBytes member) with
      | none =>
        rw [ht] at hopen
        cases hopen
      | some t =>
        rw [ht] at hopen
        obtain ⟨u, hu, hut⟩ := (getAs_string_iff h hv hd).1 ht
        exact ⟨u, t, hu, hut, (textOf_iff read hheld hw).1 ⟨c', hopen, hanswers⟩⟩
    · obtain ⟨c', hget, hanswers⟩ := (textOf_iff read hheld hw).2 htext
      refine ⟨c', ?_, hanswers⟩
      unfold openMember
      rw [(getAs_string_iff h hv hd).2 ⟨u, hu, hut⟩]
      exact hget
  rw [hstands]
  refine ⟨.inr, fun h => ?_⟩
  rcases h with hmember | hstands
  · exact stands_of_notMem hheld hw hmem hmember
  · exact hstands

/-! ## Paths -/

/-- Every nested value on the path is opened from the one before, and answers as a configuration
built directly from it. -/
def Opens (J : JsonText) (read : Bytes → Option Bytes) : IConfig → Json → List Bytes → Prop
  | _, _, [] => True
  | c, v, member :: path => ∀ w, (member, w) ∈ v.items → w.isContainer = true →
      ∃ c', OpensAs J read c member w c' ∧ Opens J read c' w path

/-- On the path no name has a NUL, or what stands under the part in front of it is a text of the
nested value. -/
def PathFound (J : JsonText) : Json → List Bytes → Prop
  | _, [] => True
  | v, member :: path => ∀ w, (member, w) ∈ v.items → w.isContainer = true →
      (0 ∉ member ∨ Stands J v member w) ∧ PathFound J w path

theorem opens_iff_pathFound {read : Bytes → Option Bytes} {path : List Bytes} {v : Json}
    (h : v.Held J) (hv : v.isContainer = true) {d : JSONConfig} (hd : ofJson J v = .ok d)
    {c : IConfig} (hsame : SameAnswers c (.json d)) :
    Opens J read c v path ↔ PathFound J v path := by
  induction path generalizing v d c with
  | nil => exact Iff.rfl
  | cons member path ih =>
    refine forall_congr' fun w => forall_congr' fun hmem => forall_congr' fun hw => ?_
    have hheld : w.Held J := by
      cases h with
      | mk _ _ hparts => exact hparts hv _ hmem
    have hstep := opensAs_iff read h hv hd hsame hmem hw
    refine ⟨fun ⟨c', hopens, hrest⟩ => ?_, fun ⟨hname, hrest⟩ => ?_⟩
    · obtain ⟨d', hd', hsame'⟩ := hopens.2
      exact ⟨hstep.1 ⟨c', hopens⟩, (ih hheld hw hd' hsame').1 hrest⟩
    · obtain ⟨c', hopens⟩ := hstep.2 hname
      obtain ⟨d', hd', hsame'⟩ := hopens.2
      exact ⟨c', hopens, (ih hheld hw hd' hsame').2 hrest⟩

/-- Names without a NUL are found. -/
theorem pathFound_of_notMem {path : List Bytes} {v : Json} (hpath : ∀ member ∈ path, 0 ∉ member) :
    PathFound J v path := by
  induction path generalizing v with
  | nil => trivial
  | cons member path ih =>
    rw [List.forall_mem_cons] at hpath
    exact fun w _ _ => ⟨.inl hpath.1, ih hpath.2⟩

/-- **Nested configurations**: along any path of members of a JSON object the nested values are
opened, and answer as ones built directly, exactly if the path is found; in particular where no
name has a NUL. -/
theorem opens_iff {ms : List (Bytes × Json)} (h : Json.Held J (.object ms))
    (read : Bytes → Option Bytes) : ∃ d, ofJson J (.object ms) = .ok d ∧ ∀ path,
      (Opens J read (.json d) (.object ms) path ↔ PathFound J (.object ms) path) ∧
      ((∀ member ∈ path, 0 ∉ member) → Opens J read (.json d) (.object ms) path) := by
  obtain ⟨d, hd, -⟩ := h.ofJson rfl
  have hiff (path : List Bytes) :
      Opens J read (.json d) (.object ms) path ↔ PathFound J (.object ms) path :=
    opens_iff_pathFound h rfl hd fun _ => rfl
  exact ⟨d, hd, fun path => ⟨hiff path, fun hpath => (hiff path).2 (pathFound_of_notMem hpath)⟩⟩

/-- The configuration of a port. -/
def portConfig : Json := .object [(bytes "port", .integer 8080)]

/-- The name of a member, as it is written. -/
def escaped (name : Bytes) : Bytes :=
  name.flatMap fun b => if b = 0 then bytes "\\u0000" else [b]

/-- The texts of a few values. -/
def serverTexts : JsonText where
  parse text :=
    if text = bytes "8080" then .ok (.integer 8080)
    else if text = bytes "\x7b\"port\":8080\x7d" then .ok portConfig
    else if text = bytes "\x7b\"server\":\x7b\"port\":8080\x7d\x7d" then
      .ok (.object [(bytes "server", portConfig)])
    else if text = bytes "\x7b\"a\\u0000b\":\x7b\"port\":8080\x7d\x7d" then
      .ok (.object [(bytes "a\x00b", portConfig)])
    else .error .parseError
  dump
    | .integer n => .ok (decimal n)
    | .object [(k, .integer n)] =>
      .ok (bytes "\x7b\"" ++ escaped k ++ bytes "\":" ++ decimal n ++ bytes "\x7d")
    | .object [(k, .object [(k', .integer n)])] =>
      .ok (bytes "\x7b\"" ++ escaped k ++ bytes "\":\x7b\"" ++ escaped k' ++ bytes "\":" ++
        decimal n ++ bytes "\x7d\x7d")
    | _ => .error (.typeError 316)

theorem portConfig_held : portConfig.Held serverTexts := by
  refine .mk ⟨_, rfl, by rfl, by decide +kernel, by decide +kernel⟩ (fun ms hms => ?_)
    fun _ x hx => ?_
  · cases hms
    simp
  · rw [List.mem_singleton.1 hx]
    exact .mk ⟨_, rfl, by rfl, trivial⟩ (fun _ h => by cases h) fun h => by cases h

theorem partConfig_held {name : Bytes}
    (hwrites : serverTexts.Writes (.object [(name, portConfig)])) :
    Json.Held serverTexts (.object [(name, portConfig)]) := by
  refine .mk hwrites (fun ms hms => ?_) fun _ x hx => ?_
  · cases hms
    simp
  · rw [List.mem_singleton.1 hx]
    exact portConfig_held

/-- The server's part of a configuration is opened. -/
theorem server_opens : ∃ d, ofJson serverTexts (.object [(bytes "server", portConfig)]) = .ok d ∧
    Opens serverTexts (fun _ => none) (.json d) (.object [(bytes "server", portConfig)])
      [bytes "server"] := by
  have hheld : Json.Held serverTexts (.object [(bytes "server", portConfig)]) :=
    partConfig_held ⟨_, rfl, by rfl, by decide +kernel, by decide +kernel⟩
  obtain ⟨d, hd, hpaths⟩ := opens_iff hheld fun _ => none
  exact ⟨d, hd, (hpaths [bytes "server"]).2 (by decide +kernel)⟩

/-- A part whose name has a NUL is not found. -/
theorem nulName_lost : Json.Held serverTexts (.object [(bytes "a\x00b", portConfig)]) ∧
    ∃ d, ofJson serverTexts (.object [(bytes "a\x00b", portConfig)]) = .ok d ∧
      ¬ Opens serverTexts (fun _ => none) (.json d) (.object [(bytes "a\x00b", portConfig)])
        [bytes "a\x00b"] := by
  refine ⟨partConfig_held ⟨_, rfl, by rfl, by decide +kernel, by decide +kernel⟩, _, rfl,
    fun h => ?_⟩
  obtain ⟨c', ⟨hopen, -⟩, -⟩ := h portConfig List.mem_cons_self rfl
  have hlost : (Except.error .nullDereference : Except Exn IConfig) = .ok c' := hopen
  cases hlost

end HttpsTest
