import HttpDecoder.HeaderEnd

/-!
# Header lists, written out and parsed

What the header map tells of the lines it was filled from.

* `valuesOf` — the values of one name, in order; `getElem?_insertMany` — the map keeps the
  last of them.
* `Recovers` — every line can be read off the map; `keepsLast_recovers_iff` — **when it
  can**.
* `rendering` — a header list with one line end; `rendering_lf`, `rendering_crlf` — both
  line ends as header texts.
* `SameMap`, `sameMap_iff` — **when both line ends give one map**.
-/

namespace HttpDecoder

open CLib

/-! ## The last value of a name -/

/-- The values of the lines with that name, in order. -/
def valuesOf (name : Bytes) (hs : List (Bytes × Bytes)) : List Bytes :=
  (hs.filter fun h => h.1 = name).map Prod.snd

theorem valuesOf_cons (name : Bytes) (h : Bytes × Bytes) (hs : List (Bytes × Bytes)) :
    valuesOf name (h :: hs) = if h.1 = name then h.2 :: valuesOf name hs else valuesOf name hs := by
  unfold valuesOf
  by_cases heq : h.1 = name
  · rw [if_pos heq, List.filter_cons_of_pos (by simpa using heq), List.map_cons]
  · rw [if_neg heq, List.filter_cons_of_neg (by simpa using heq)]

theorem valuesOf_ne_nil {name : Bytes} {hs : List (Bytes × Bytes)} :
    valuesOf name hs ≠ [] ↔ name ∈ hs.map Prod.fst := by
  unfold valuesOf
  rw [Ne, List.map_eq_nil_iff, List.filter_eq_nil_iff]
  simp

/-- **The map keeps the last value of each name**, and what it held of the others. -/
theorem getElem?_insertMany (hs : List (Bytes × Bytes)) (name : Bytes) :
    ∀ headmap : HeaderMap,
      (headmap.insertMany hs)[name]? = (valuesOf name hs).getLast?.or headmap[name]? := by
  induction hs with
  | nil =>
    intro headmap
    rfl
  | cons h hs ih =>
    intro headmap
    obtain ⟨key, value⟩ := h
    rw [Std.ExtTreeMap.insertMany_cons, ih, Std.ExtTreeMap.getElem?_insert, valuesOf_cons]
    by_cases heq : key = name
    · rw [if_pos (Std.LawfulEqCmp.compare_eq_iff_eq.mpr heq), if_pos heq, List.getLast?_cons]
      cases (valuesOf name hs).getLast? <;> rfl
    · rw [if_neg (fun hcmp => heq (Std.LawfulEqCmp.compare_eq_iff_eq.mp hcmp)), if_neg heq]

/-! ## Reading the lines off the map -/

/-- For each name of a line, the map holds the values of its lines, in order. -/
def Recovers (headmap : HeaderMap) (hs : List (Bytes × Bytes)) : Prop :=
  ∀ name ∈ hs.map Prod.fst, headmap[name]?.toList = valuesOf name hs

theorem length_valuesOf (name : Bytes) (hs : List (Bytes × Bytes)) :
    (valuesOf name hs).length = (hs.map Prod.fst).count name := by
  induction hs with
  | nil => rfl
  | cons h hs ih =>
    rw [valuesOf_cons, List.map_cons, List.count_cons, ← ih]
    by_cases heq : h.1 = name
    · rw [if_pos heq, if_pos (by simpa using heq), List.length_cons]
    · rw [if_neg heq, if_neg (by simpa using heq), Nat.add_zero]

/-- The last element of a list is the list if there is one element. -/
theorem toList_getLast? {α : Type*} {l : List α} (h : l ≠ []) :
    l.getLast?.toList = l ↔ l.length = 1 := by
  obtain ⟨x, l, rfl⟩ := List.exists_cons_of_ne_nil h
  rw [List.getLast?_cons, Option.toList_some]
  constructor
  · intro hlast
    exact (congrArg List.length hlast).symm
  · intro hlength
    obtain rfl := List.eq_nil_of_length_eq_zero (Nat.succ.inj hlength)
    rfl

/-- **A filled map recovers its lines exactly if their names are distinct.** -/
theorem recovers_insertMany_iff {headmap : HeaderMap} {hs : List (Bytes × Bytes)} :
    Recovers (headmap.insertMany hs) hs ↔ (hs.map Prod.fst).Nodup := by
  rw [List.nodup_iff_count_eq_one]
  apply forall₂_congr
  intro name hname
  have hne := valuesOf_ne_nil.mpr hname
  obtain ⟨value, hvalue⟩ := Option.ne_none_iff_exists'.mp (mt List.getLast?_eq_none_iff.mp hne)
  rw [getElem?_insertMany, ← length_valuesOf, ← toList_getLast? hne, hvalue, Option.some_or]

section Lines

variable {m : Mem} {len pos : Nat} {hs : List (Bytes × Bytes)} {eol body : Bytes}
  {headmap : HeaderMap}

/-- **What the map keeps of a header block.**  For every well-formed block, from any
cursor on and into any map, if `ParseHeader` succeeds: each name has the value of its last
line, and all lines can be read off exactly if no name is repeated. -/
theorem keepsLast_recovers_iff (hpos : pos ≤ len) (hlen : len < 2 ^ 32)
    (hplain : ∀ h ∈ hs, PlainHeader h) (heol : eol = [lf] ∨ eol = crlf)
    (hbs : m.read pos (len - pos) = headerText hs ++ (eol ++ body))
    (hok : (parseHeader m len pos headmap).ok = true) :
    (∀ name : Bytes, (parseHeader m len pos headmap).out[name]? =
        (valuesOf name hs).getLast?.or headmap[name]?) ∧
      (Recovers (parseHeader m len pos headmap).out hs ↔ (hs.map Prod.fst).Nodup) := by
  rw [(parseHeader_head hpos hlen hplain heol hbs hok).1]
  exact ⟨fun name => getElem?_insertMany hs name headmap, recovers_insertMany_iff⟩

end Lines

/-- `Set-Cookie`. -/
def setCookie : Bytes := ascii ['S', 'e', 't', '-', 'C', 'o', 'o', 'k', 'i', 'e']

/-- Two lines of that name. -/
def twoCookies : List (Bytes × Bytes) := [(setCookie, [97]), (setCookie, [98])]

/-- The second line alone. -/
def oneCookie : List (Bytes × Bytes) := [(setCookie, [98])]

theorem plain_twoCookies : ∀ h ∈ twoCookies, PlainHeader h := by
  have hplain : ∀ h ∈ twoCookies, colon ∉ h.1 ∧ lf ∉ h.1 ∧ lf ∉ h.2 := by decide
  exact fun h hh => ⟨(hplain h hh).1, (hplain h hh).2.1, (hplain h hh).2.2⟩

theorem plain_oneCookie : ∀ h ∈ oneCookie, PlainHeader h := fun h hh =>
  plain_twoCookies h (List.mem_cons_of_mem _ hh)

/-- The bytes of a header block that ends in LF. -/
def blockText (hs : List (Bytes × Bytes)) : Bytes := headerText hs ++ [lf]

/-- `ParseHeader` on such a block, into an empty map. -/
def parseBlock (hs : List (Bytes × Bytes)) : Stage HeaderMap :=
  parseHeader (memOf (blockText hs)) (blockText hs).length 0 ∅

theorem parseBlock_eq {hs : List (Bytes × Bytes)} (hplain : ∀ h ∈ hs, PlainHeader h)
    (hsmall : (blockText hs).length < 2 ^ 31) :
    (parseBlock hs).ok = true ∧ (parseBlock hs).out = (∅ : HeaderMap).insertMany hs := by
  obtain ⟨hok, hout, -⟩ := parseHeader_wellFormed hplain (Or.inl rfl) (rfl : blockText hs = _)
    (unread_memOf hsmall).holds (by omega) (Or.inr hsmall) ∅
  exact ⟨hok, hout⟩

theorem keepsLast_recovers_iff_twoCookies :
    (parseBlock twoCookies).out[setCookie]? = some [98] ∧
      ¬ Recovers (parseBlock twoCookies).out twoCookies := by
  have hread : (memOf (blockText twoCookies)).read 0 ((blockText twoCookies).length - 0) =
      headerText twoCookies ++ ([lf] ++ []) := by decide
  obtain ⟨hlast, hrecovers⟩ := keepsLast_recovers_iff (Nat.zero_le _) (by decide) plain_twoCookies
    (Or.inl rfl) hread (parseBlock_eq plain_twoCookies (by decide)).1
  exact ⟨hlast setCookie, fun h => absurd (hrecovers.mp h) (by decide)⟩

/-- `recover` reads the values of each name off the map of any block. -/
def Recoverable (recover : HeaderMap → Bytes → List Bytes) : Prop :=
  ∀ hs : List (Bytes × Bytes), (∀ h ∈ hs, PlainHeader h) → (parseBlock hs).ok = true →
    ∀ name, recover (parseBlock hs).out name = valuesOf name hs

/-- Nothing does: the two lines leave the map that the second leaves alone. -/
theorem not_recoverable_twoCookies : ¬ ∃ recover, Recoverable recover := by
  rintro ⟨recover, hrecover⟩
  obtain ⟨hok, hout⟩ := parseBlock_eq plain_twoCookies (by decide)
  obtain ⟨hok', hout'⟩ := parseBlock_eq plain_oneCookie (by decide)
  have hsame : (parseBlock twoCookies).out = (parseBlock oneCookie).out := by
    rw [hout, hout']
    apply Std.ExtTreeMap.ext_getElem?
    intro name
    rw [getElem?_insertMany, getElem?_insertMany]
    by_cases heq : setCookie = name
    · simp [twoCookies, oneCookie, valuesOf_cons, heq]
    · simp [twoCookies, oneCookie, valuesOf_cons, heq]
  have htwo := hrecover twoCookies plain_twoCookies hok setCookie
  rw [hsame, hrecover oneCookie plain_oneCookie hok' setCookie] at htwo
  exact absurd htwo (by decide)

/-! ## Two line ends -/

/-- The header lines and the empty line, all with one line end. -/
def rendering (eol : Bytes) (hs : List (Bytes × Bytes)) : Bytes :=
  (hs.flatMap fun h => h.1 ++ colon :: (h.2 ++ eol)) ++ eol

/-- A header without line ends, and without a colon in its name. -/
structure CleanHeader (h : Bytes × Bytes) : Prop where
  name_colon : colon ∉ h.1
  name_cr : cr ∉ h.1
  name_lf : lf ∉ h.1
  value_cr : cr ∉ h.2
  value_lf : lf ∉ h.2

/-- The header with a CR behind its value. -/
def withCr (h : Bytes × Bytes) : Bytes × Bytes := (h.1, h.2 ++ [cr])

theorem CleanHeader.plain {h : Bytes × Bytes} (hh : CleanHeader h) : PlainHeader h :=
  ⟨hh.name_colon, hh.name_lf, hh.value_lf⟩

theorem CleanHeader.plain_withCr {h : Bytes × Bytes} (hh : CleanHeader h) :
    PlainHeader (withCr h) := by
  refine ⟨hh.name_colon, hh.name_lf, fun hlf => ?_⟩
  rcases List.mem_append.mp hlf with hvalue | hcr
  · exact hh.value_lf hvalue
  · exact absurd (List.mem_singleton.mp hcr) (by decide)

theorem rendering_lf (hs : List (Bytes × Bytes)) : rendering [lf] hs = headerText hs ++ [lf] := rfl

/-- With CR LF, `ParseHeader` reads a CR at the end of each value. -/
theorem rendering_crlf (hs : List (Bytes × Bytes)) :
    rendering crlf hs = headerText (hs.map withCr) ++ crlf := by
  unfold rendering headerText withCr
  rw [List.flatMap_map]
  simp [crlf]

/-- So do the values of each name. -/
theorem valuesOf_withCr (name : Bytes) (hs : List (Bytes × Bytes)) :
    valuesOf name (hs.map withCr) = (valuesOf name hs).map (· ++ [cr]) := by
  induction hs with
  | nil => rfl
  | cons h hs ih =>
    rw [List.map_cons, valuesOf_cons, valuesOf_cons, ih, show (withCr h).1 = h.1 from rfl]
    by_cases heq : h.1 = name
    · rw [if_pos heq, if_pos heq, List.map_cons]
      rfl
    · rw [if_neg heq, if_neg heq]

theorem length_rendering_le (hs : List (Bytes × Bytes)) :
    (rendering [lf] hs).length ≤ (rendering crlf hs).length := by
  induction hs with
  | nil => decide
  | cons h hs ih =>
    simp only [rendering, List.flatMap_cons, List.length_append, List.length_cons, crlf] at ih ⊢
    omega

section Renderings

variable {m m' : Mem} {hs : List (Bytes × Bytes)} {body : Bytes}

/-- Over memories that hold the two renderings, a body behind each, `ParseHeader` fills
empty maps with the same headers. -/
def SameMap (m m' : Mem) (hs : List (Bytes × Bytes)) (body : Bytes) : Prop :=
  (parseHeader m (rendering crlf hs ++ body).length 0 ∅).out =
    (parseHeader m' (rendering [lf] hs ++ body).length 0 ∅).out

/-- What a header text leaves in an empty map, be it stored or too long. -/
theorem out_headerText {bs eol : Bytes} (hplain : ∀ h ∈ hs, PlainHeader h)
    (heol : eol = [lf] ∨ eol = crlf) (hbs : bs = headerText hs ++ (eol ++ body)) (hm : m.Holds 0 bs)
    (hlen : bs.length < 2 ^ 32) :
    (parseHeader m bs.length 0 ∅).out =
      if hs = [] ∨ bs.length < 2 ^ 31 then (∅ : HeaderMap).insertMany hs else ∅ := by
  by_cases hfits : hs = [] ∨ bs.length < 2 ^ 31
  · rw [if_pos hfits]
    exact (parseHeader_wellFormed hplain heol hbs hm hlen hfits ∅).2.1
  · rw [if_neg hfits, parseHeader_wellFormed_long hplain hbs hm hlen hfits]

/-- What the CR LF rendering leaves there. -/
theorem out_crlf (hclean : ∀ h ∈ hs, CleanHeader h) (hm : m.Holds 0 (rendering crlf hs ++ body))
    (hlen : (rendering crlf hs ++ body).length < 2 ^ 32) :
    (parseHeader m (rendering crlf hs ++ body).length 0 ∅).out =
      if hs = [] ∨ (rendering crlf hs ++ body).length < 2 ^ 31
      then (∅ : HeaderMap).insertMany (hs.map withCr) else ∅ := by
  have htext : rendering crlf hs ++ body = headerText (hs.map withCr) ++ (crlf ++ body) := by
    rw [rendering_crlf, List.append_assoc]
  rw [out_headerText (List.forall_mem_map.mpr fun h hh => (hclean h hh).plain_withCr)
    (Or.inr rfl) htext hm hlen]
  simp only [List.map_eq_nil_iff]

/-- What the LF rendering leaves there. -/
theorem out_lf (hclean : ∀ h ∈ hs, CleanHeader h) (hm : m.Holds 0 (rendering [lf] hs ++ body))
    (hlen : (rendering [lf] hs ++ body).length < 2 ^ 32) :
    (parseHeader m (rendering [lf] hs ++ body).length 0 ∅).out =
      if hs = [] ∨ (rendering [lf] hs ++ body).length < 2 ^ 31
      then (∅ : HeaderMap).insertMany hs else ∅ := by
  have htext : rendering [lf] hs ++ body = headerText hs ++ ([lf] ++ body) := by
    rw [rendering_lf, List.append_assoc]
  exact out_headerText (fun h hh => (hclean h hh).plain) (Or.inl rfl) htext hm hlen

/-- **When both line ends give one map**: without headers, or where both renderings are so
long that nothing is stored. -/
theorem sameMap_iff (hclean : ∀ h ∈ hs, CleanHeader h)
    (hm : m.Holds 0 (rendering crlf hs ++ body)) (hm' : m'.Holds 0 (rendering [lf] hs ++ body))
    (hlen : (rendering crlf hs ++ body).length < 2 ^ 32) :
    SameMap m m' hs body ↔ hs = [] ∨ 2 ^ 31 ≤ (rendering [lf] hs ++ body).length := by
  have hle : (rendering [lf] hs ++ body).length ≤ (rendering crlf hs ++ body).length := by
    rw [List.length_append, List.length_append]
    exact Nat.add_le_add_right (length_rendering_le hs) _
  unfold SameMap
  rw [out_crlf hclean hm hlen, out_lf hclean hm' (by omega)]
  by_cases hnil : hs = []
  · rw [if_pos (Or.inl hnil), if_pos (Or.inl hnil), hnil]
    exact iff_of_true rfl (Or.inl rfl)
  by_cases hlong : 2 ^ 31 ≤ (rendering [lf] hs ++ body).length
  · rw [if_neg (not_or.mpr ⟨hnil, by omega⟩), if_neg (not_or.mpr ⟨hnil, by omega⟩)]
    exact iff_of_true rfl (Or.inr hlong)
  refine iff_of_false (fun hsame => ?_) (not_or.mpr ⟨hnil, hlong⟩)
  -- the first header has a value in the LF map, and none or one with a CR in the other
  obtain ⟨h, hs, rfl⟩ := List.exists_cons_of_ne_nil hnil
  have hne : valuesOf h.1 (h :: hs) ≠ [] := valuesOf_ne_nil.mpr List.mem_cons_self
  obtain ⟨value, hvalue⟩ := Option.ne_none_iff_exists'.mp (mt List.getLast?_eq_none_iff.mp hne)
  have hlookup := congrArg (fun headmap : HeaderMap => headmap[h.1]?) hsame
  rw [if_pos (Or.inr (not_le.mp hlong)), getElem?_insertMany, hvalue, Option.some_or] at hlookup
  split at hlookup
  · rw [getElem?_insertMany, valuesOf_withCr, List.getLast?_map, hvalue, Option.map_some,
      Option.some_or, Option.some_inj] at hlookup
    exact absurd (congrArg List.length hlookup) (by simp)
  · rw [Std.ExtTreeMap.getElem?_empty] at hlookup
    cases hlookup

end Renderings

/-- One header, `a:b`. -/
def oneHeader : List (Bytes × Bytes) := [([97], [98])]

theorem clean_oneHeader : ∀ h ∈ oneHeader, CleanHeader h := by
  intro h hh
  rw [List.mem_singleton.mp hh]
  exact ⟨by decide, by decide, by decide, by decide, by decide⟩

/-- No header at all, and one: there the line ends make a difference. -/
theorem sameMap_iff_samples : SameMap (memOf crlf) (memOf [lf]) [] [] ∧
    ¬ SameMap (memOf (rendering crlf oneHeader)) (memOf (rendering [lf] oneHeader)) oneHeader [] := by
  constructor
  · exact (sameMap_iff (fun h hh => absurd hh List.not_mem_nil)
      (unread_memOf (show crlf.length < 2 ^ 31 by decide)).holds
      (unread_memOf (show [lf].length < 2 ^ 31 by decide)).holds (by decide)).mpr (Or.inl rfl)
  · have hcrlf : (rendering crlf oneHeader).length < 2 ^ 31 := by decide
    have hlf : (rendering [lf] oneHeader).length < 2 ^ 31 := by decide
    have hone : SameMap (memOf (rendering crlf oneHeader)) (memOf (rendering [lf] oneHeader))
        oneHeader [] ↔ oneHeader = [] ∨ 2 ^ 31 ≤ (rendering [lf] oneHeader ++ []).length :=
      sameMap_iff clean_oneHeader
        (by rw [List.append_nil]; exact (unread_memOf hcrlf).holds)
        (by rw [List.append_nil]; exact (unread_memOf hlf).holds)
        (by rw [List.append_nil]; exact hcrlf.trans (by norm_num))
    rw [hone, List.append_nil, not_or]
    exact ⟨List.cons_ne_nil _ _, not_le.mpr hlf⟩

/-- One header: its value ends in a CR in one map, and not in the other. -/
theorem not_sameMap_oneHeader : (∀ h ∈ oneHeader, CleanHeader h) ∧
    ¬ SameMap (memOf (rendering crlf oneHeader)) (memOf (rendering [lf] oneHeader)) oneHeader [] ∧
      (parseHeader (memOf (rendering crlf oneHeader)) 7 0 ∅).out[([97] : Bytes)]? =
        some [98, cr] ∧
      (parseHeader (memOf (rendering [lf] oneHeader)) 5 0 ∅).out[([97] : Bytes)]? = some [98] := by
  have hcrlf : (parseHeader (memOf (rendering crlf oneHeader)) 7 0 ∅).out[([97] : Bytes)]? =
      some [98, cr] := by decide +kernel
  have hlf : (parseHeader (memOf (rendering [lf] oneHeader)) 5 0 ∅).out[([97] : Bytes)]? =
      some [98] := by decide +kernel
  refine ⟨clean_oneHeader, fun hsame => ?_, hcrlf, hlf⟩
  have hlookup := congrArg (fun headmap : HeaderMap => headmap[([97] : Bytes)]?) hsame
  have hboth : some [98, cr] = some [98] := hcrlf.symm.trans (hlookup.trans hlf)
  exact absurd hboth (by decide)

end HttpDecoder
