import HttpDecoder.CleanResult
import HttpDecoder.Exchange
import HttpDecoder.Report

/-!
# Reports are read back

A file is only appended to, and nothing in it says where a record ends or which bytes belong
to which field.  Most of this can be told from the text, for the fields come from searches that
stopped at a delimiter.

* `getBufAt_notMem` — what `GetBufByTag` gives does not have the delimiter in it.
* `rows_parseHeader`, `rows_run` — hence **every header a run prints ends where it can be
  seen**: its name has no colon, and its value no LF.  (A name may have LFs in it.)
* `Record.Told` — what is left to ask of a record.
* `reports_readBack` — **the file of a port tells the records that were sent to it**, in every
  run.
-/

namespace HttpDecoder

open CLib CLib.Numeral CHandle

/-! ## Header maps -/

/-- The loop passes no match. -/
theorem findTag_first {inp : Mem} {tag : Bytes} {n : Nat} :
    ∀ {i j : Nat}, findTag inp tag i n = some j →
      ∀ k, i ≤ k → k < j → strncmpEq (inp.shift k) tag = false := by
  induction n with
  | zero => exact fun h => absurd h (by simp [findTag])
  | succ n ih =>
    intro i j h k hik hkj
    unfold findTag at h
    by_cases hmatch : strncmpEq (inp.shift i) tag = true
    · rw [if_pos hmatch] at h
      obtain rfl := Option.some.inj h
      omega
    · rw [if_neg hmatch] at h
      rcases Nat.eq_or_lt_of_le hik with rfl | hlt
      · simpa using hmatch
      · exact ih h k hlt hkj

/-- **What `GetBufByTag` gives does not have the delimiter in it.** -/
theorem getBufAt_notMem {pBuf : Mem} {len pos i : Nat} {t : UInt8} {w : Bytes}
    (h : getBufAt pBuf len pos [t] [] = some (i, w)) : t ∉ w := by
  unfold getBufAt getBufByTag at h
  obtain ⟨j, hj, hout⟩ := Option.map_eq_some_iff.mp h
  obtain ⟨rfl, rfl⟩ := Prod.mk.inj hout
  intro hmem
  obtain ⟨k, hk, hbyte⟩ := List.mem_map.mp hmem
  have hpass := findTag_first hj k (Nat.zero_le k) (List.mem_range.mp hk)
  rw [strncmpEq_single, decide_eq_false_iff_not] at hpass
  rw [Nat.zero_add] at hbyte
  exact hpass hbyte

theorem rows_empty : Rows ∅ := by
  rintro ⟨k, v⟩ hkv
  rw [Std.ExtTreeMap.mem_toList_iff_getElem?_eq_some] at hkv
  exact absurd hkv (by simp)

/-- A line found by the two searches may be added. -/
theorem Rows.insert {m : HeaderMap} (h : Rows m) {key value : Bytes} (hkey : colon ∉ key)
    (hvalue : lf ∉ value) : Rows (m.insert key value) := by
  rintro ⟨k, v⟩ hkv
  rw [Std.ExtTreeMap.mem_toList_iff_getElem?_eq_some, Std.ExtTreeMap.getElem?_insert] at hkv
  by_cases heq : compare key k = .eq
  · rw [if_pos heq] at hkv
    obtain rfl := Std.LawfulEqCmp.eq_of_compare heq
    exact ⟨hkey, Option.some.inj hkv ▸ hvalue⟩
  · rw [if_neg heq] at hkv
    exact h (k, v) (Std.ExtTreeMap.mem_toList_iff_getElem?_eq_some.mpr hkv)

/-- **`ParseHeader` adds such lines only.** -/
theorem rows_parseHeader (pBuf : Mem) (len pos : Nat) (headmap : HeaderMap) (h : Rows headmap) :
    Rows (parseHeader pBuf len pos headmap).out := by
  fun_induction parseHeader pBuf len pos headmap with
  | case1 => exact h
  | case2 => exact h
  | case3 => exact h
  | case4 => exact h
  | case5 => exact h
  | case6 _ _ _ _ _ _ _ hkey _ _ _ hvalue _ ih =>
    exact ih (h.insert (getBufAt_notMem hkey) (getBufAt_notMem hvalue))

/-! ## The records of a run -/

/-- What is left to ask of a record: no part of it looks like what is printed behind it. -/
structure Record.Told (r : Record) : Prop where
  /-- The reason does not begin with a digit. -/
  note_digit : ∀ c ∈ r.retNote.head?, isDigit c = false
  note_lf : lf ∉ r.retNote
  url_lf : lf ∉ r.url
  /-- The request does not have the title of the next block in it. -/
  requestContext : Codec.Before (ascii "\n".toList ++ ascii "Response Header:\n".toList)
    r.requestContext
  /-- The response does not have the rule in it. -/
  responseContext : Codec.Before (ascii "\n".toList ++ Record.rule) r.responseContext

instance (r : Record) : Decidable r.Told :=
  decidable_of_iff ((∀ c ∈ r.retNote.head?, isDigit c = false) ∧ lf ∉ r.retNote ∧ lf ∉ r.url ∧
      Codec.Before (ascii "\n".toList ++ ascii "Response Header:\n".toList) r.requestContext ∧
      Codec.Before (ascii "\n".toList ++ Record.rule) r.responseContext)
    ⟨fun ⟨h₁, h₂, h₃, h₄, h₅⟩ => ⟨h₁, h₂, h₃, h₄, h₅⟩,
      fun h => ⟨h.note_digit, h.note_lf, h.url_lf, h.requestContext, h.responseContext⟩⟩

/-- With lines that can be told apart, such a record is plain. -/
theorem Record.Told.plain {r : Record} (h : r.Told)
    (hrows : Rows r.requestHeader ∧ Rows r.responseHeader) : r.Plain :=
  ⟨h.note_digit, h.note_lf, h.url_lf, hrows.1, h.requestContext, hrows.2, h.responseContext⟩

/-- The headers of a record are those of its two messages. -/
theorem Emits.rows {B : Boost} {e : ParseEnv} {s : CSession} {sent : Option Record}
    (h : Emits B e s sent) {r : Record} (hr : r ∈ sent) :
    Rows r.requestHeader ∧ Rows r.responseHeader := by
  obtain ⟨req, rsp, -, -, hreq, hrsp⟩ := h.fields r hr
  constructor
  · by_cases hlong : 10 < s.reqBuf.len
    · obtain ⟨_, _, pos, _, _, _, _, hheader⟩ := hreq.long hlong
      exact hheader ▸ rows_parseHeader _ _ _ _ rows_empty
    · rw [(hreq.short hlong).2.2.2]
      exact rows_empty
  · by_cases hlong : 10 < s.rspBuf.len
    · obtain ⟨_, _, pos, _, _, _, _, hheader⟩ := hrsp.long hlong
      exact hheader ▸ rows_parseHeader _ _ _ _ rows_empty
    · rw [(hrsp.short hlong).2.2]
      exact rows_empty

/-- **No name that a run prints has a colon in it, and no value an LF.** -/
theorem rows_run (B : Boost) (ses : Nat → CSession) (now : Int) (xs : List Call) :
    ∀ r ∈ sentBy ((handleMachine B).run (init ses now) xs).2,
      Rows r.requestHeader ∧ Rows r.responseHeader := by
  intro r hr
  obtain ⟨k, hk, hsent⟩ := List.mem_filterMap.mp hr
  obtain ⟨hclean, e, he⟩ := cleanCall_run B ses now xs hk
  exact (emits_parse B e hclean).rows (Option.mem_def.mpr (he.symm.trans hsent))

/-- **The file of a port tells the records that were sent to it.**  Two runs from `Init`, with
any conversions, clocks, packets and memory, whose files for a port hold the same bytes in the end,
have sent the same records to it, in the same order, as long as no part of these records looks
like what is printed behind it. -/
theorem reports_readBack {B B' : Boost} {ses ses' : Nat → CSession} {now now' : Int}
    {xs ys : List Call} {d : Files} {port : UInt16}
    (htold : ∀ r ∈ sentTo port ((handleMachine B).run (init ses now) xs).2, r.Told)
    (htold' : ∀ r ∈ sentTo port ((handleMachine B').run (init ses' now') ys).2, r.Told)
    (hfile : disk d ((handleMachine B).run (init ses now) xs).2 (fileName port) =
      disk d ((handleMachine B').run (init ses' now') ys).2 (fileName port)) :
    sentTo port ((handleMachine B).run (init ses now) xs).2 =
      sentTo port ((handleMachine B').run (init ses' now') ys).2 := by
  rw [disk_file, disk_file] at hfile
  refine readable_text.flatMap_inj (fun r _ => Record.text_ne_nil r) (fun r hr => ?_)
    (fun r hr => ?_) (List.append_cancel_left hfile)
  · exact (htold r hr).plain (rows_run B ses now xs r (List.mem_of_mem_filter hr))
  · exact (htold' r hr).plain (rows_run B' ses' now' ys r (List.mem_of_mem_filter hr))

/-- A run with the exchange of a connection, and one that a second connection takes part in. -/
theorem reports_readBack_sample :
    sentTo 1000 ((handleMachine Boost.decimal).run (init blankSes 0)
        ((sampleFull ++ [sampleFin]).map Arrival.call)).2 =
      sentTo 1000 ((handleMachine Boost.decimal).run (init blankSes 7)
        ((arrival ⟨3, 1001⟩ ⟨2, 80⟩ 6 [71] false :: sampleFull ++ [sampleFin]).map
          Arrival.call)).2 :=
  reports_readBack (d := fun _ => []) (by decide +kernel) (by decide +kernel) (by decide +kernel)

end HttpDecoder
