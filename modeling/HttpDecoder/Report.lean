import HttpDecoder.Handle
import HttpDecoder.Lib.Codec
import HttpDecoder.Lib.File
import HttpDecoder.Lib.Numeral

/-!
# What `Send` writes

`CHttpParse::Send` appends the text of a record to the file named after the port of the client.

* `Iptrans`, `dotted` — the union through which an address is printed.
* `Record.text`, `Record.file`, `Record.write` — the text, the name of the file, and the files
  afterwards.
* `disk` — the files after some calls of `Parse`; `disk_file` — a file holds the texts of the
  records of its port, in the order in which they were sent.
* `Record.Plain` — the parts of a record do not run into what is printed behind them.
* `readable_text` — **the text of a plain record is read back**.
-/

namespace HttpDecoder

open CLib CLib.Numeral

/-! ## The text of a record -/

/-- `union iptrans` on a little-endian host: the bytes of an address, the lowest first. -/
@[ext] structure Iptrans where
  /-- `x1`. -/
  x1 : UInt8
  /-- `x2`. -/
  x2 : UInt8
  /-- `x3`. -/
  x3 : UInt8
  /-- `x4`. -/
  x4 : UInt8

/-- The bytes after `p.ip = ip`. -/
def Iptrans.ofIp (ip : UInt32) : Iptrans where
  x1 := UInt8.ofNat ip.toNat
  x2 := UInt8.ofNat (ip.toNat / 256)
  x3 := UInt8.ofNat (ip.toNat / 65536)
  x4 := UInt8.ofNat (ip.toNat / 16777216)

/-- `(int)p.x4<<"."<<(int)p.x3<<"."<<(int)p.x2<<"."<<(int)p.x1`. -/
def dotted (ip : UInt32) : Bytes :=
  let p := Iptrans.ofIp ip
  showNat p.x4.toNat ++ ascii ".".toList ++ showNat p.x3.toNat ++ ascii ".".toList ++
    showNat p.x2.toNat ++ ascii ".".toList ++ showNat p.x1.toNat

/-- An end of the connection, `address:port`. -/
def Endpoint.text (e : Endpoint) : Bytes :=
  dotted e.ip ++ ascii ":".toList ++ showNat e.port.toNat

/-- The line of a header. -/
def headerRow (h : Bytes × Bytes) : Bytes :=
  ascii "\t".toList ++ h.1 ++ ascii ":  ".toList ++ h.2 ++ ascii "\n".toList

namespace Record

/-- The rule under a record. -/
def rule : Bytes := List.replicate 98 43 ++ [lf]

variable (r : Record)

/-- The lines before the headers of the request. -/
def summary : Bytes :=
  r.client.text ++ ascii " ===> ".toList ++ r.server.text ++ ascii "\n".toList ++
  ascii "method: ".toList ++ showNat r.method.toNat ++
  ascii "\tversion: ".toList ++ showNat r.version.toNat ++ ascii "\n".toList ++
  ascii "retrun code : ".toList ++ showNat r.retCode.toNat ++ r.retNote ++ ascii "\n".toList ++
  ascii "url : ".toList ++ r.url ++ ascii "\n".toList

/-- What `CHttpParse::Send` writes, a header map in the order of its iterator. -/
def text : Bytes :=
  r.summary ++
  ascii "Request Header:\n".toList ++ r.requestHeader.toList.flatMap headerRow ++
  ascii "Request Context:\n".toList ++ r.requestContext ++ ascii "\n".toList ++
  ascii "Response Header:\n".toList ++ r.responseHeader.toList.flatMap headerRow ++
  ascii "Response Context:\n".toList ++ r.responseContext ++ ascii "\n".toList ++
  rule

/-- It ends with the rule. -/
theorem text_ne_nil : r.text ≠ [] :=
  List.append_ne_nil_of_right_ne_nil _ (List.append_ne_nil_of_right_ne_nil _ (List.cons_ne_nil _ _))

end Record

/-! ## The files -/

/-- The name of the file for a client port: `"../../"` and the port in digits. -/
def fileName (port : UInt16) : Bytes := ascii "../../".toList ++ showNat port.toNat

/-- The file `Send` opens for a record. -/
def Record.file (r : Record) : Bytes := fileName r.client.port

/-- `Send` appends to the file, which opens. -/
def Record.write (d : Files) (r : Record) : Files := d.append r.file r.text

/-- The records some calls of `Parse` send. -/
def sentBy (ks : List ParseCall) : List Record := ks.filterMap ParseCall.sent

/-- The files after these calls, `d` being the files before. -/
def disk (d : Files) (ks : List ParseCall) : Files := (sentBy ks).foldl Record.write d

/-- The records they send to the file of a port. -/
def sentTo (port : UInt16) (ks : List ParseCall) : List Record :=
  (sentBy ks).filter fun r => decide (r.client.port = port)

/-- Files of different ports have different names. -/
theorem fileName_inj {p q : UInt16} (h : fileName p = fileName q) : p = q :=
  UInt16.toNat_inj.mp (showNat_inj (List.append_cancel_left h))

/-- **A file holds the texts of the records of its port**, in the order in which they were
sent, behind what it held before. -/
theorem disk_file (d : Files) (ks : List ParseCall) (port : UInt16) :
    disk d ks (fileName port) = d (fileName port) ++ (sentTo port ks).flatMap Record.text := by
  have hname : ∀ r : Record, r.file = fileName port ↔ r.client.port = port :=
    fun r => ⟨fileName_inj, congrArg fileName⟩
  unfold disk sentTo
  simp only [← hname]
  exact Files.foldl_append Record.file Record.text (fileName port) (sentBy ks) d

/-! ## Reading a report -/

attribute [ext] Record

/-- What is printed of a header can be cut at the first colon and the first LF behind it. -/
def Rows (m : HeaderMap) : Prop := ∀ h ∈ m.toList, colon ∉ h.1 ∧ lf ∉ h.2

/-- The parts of a record do not run into what is printed behind them. -/
structure Record.Plain (r : Record) : Prop where
  /-- The reason does not go on with the digits of the code. -/
  note_digit : ∀ c ∈ r.retNote.head?, isDigit c = false
  /-- It stays on its line. -/
  note_lf : lf ∉ r.retNote
  url_lf : lf ∉ r.url
  requestHeader : Rows r.requestHeader
  /-- The bytes of the request do not have the line in them that ends them. -/
  requestContext : Codec.Before (ascii "\n".toList ++ ascii "Response Header:\n".toList)
    r.requestContext
  responseHeader : Rows r.responseHeader
  /-- The bytes of the response do not have the rule in them. -/
  responseContext : Codec.Before (ascii "\n".toList ++ Record.rule) r.responseContext

section Reading

variable {sep x y : Bytes}

/-- A number is read back up to a separator that begins with no digit. -/
theorem showNat_append_inj {m n : Nat} (hsep : ∃ c ∈ sep.head?, isDigit c = false)
    (h : showNat m ++ (sep ++ x) = showNat n ++ (sep ++ y)) : m = n ∧ x = y := by
  obtain ⟨c, hc, hdigit⟩ := hsep
  have hhead : ∀ z, ∀ d ∈ (sep ++ z).head?, isDigit d = false := by
    intro z d hd
    rw [List.head?_append, Option.mem_def.mp hc] at hd
    exact Option.some.inj hd ▸ hdigit
  obtain ⟨hmn, hrest⟩ := readable_showNat (hhead x) (hhead y) h
  exact ⟨hmn, List.append_cancel_left hrest⟩

/-- An address is told by its bytes. -/
theorem Iptrans.ofIp_inj {ip ip' : UInt32} (h : Iptrans.ofIp ip = Iptrans.ofIp ip') : ip = ip' := by
  have hip := ip.toNat_lt
  have hip' := ip'.toNat_lt
  obtain ⟨h1, h2, h3, h4⟩ := Iptrans.mk.inj h
  have hbyte : ∀ {m n : Nat}, UInt8.ofNat m = UInt8.ofNat n → m % 256 = n % 256 := by
    intro m n hmn
    simpa using congrArg UInt8.toNat hmn
  have h1' := hbyte h1
  have h2' := hbyte h2
  have h3' := hbyte h3
  have h4' := hbyte h4
  exact UInt32.toNat_inj.mp (by omega)

/-- **An address is read back.** -/
theorem dotted_inj {ip ip' : UInt32} (hsep : ∃ c ∈ sep.head?, isDigit c = false)
    (h : dotted ip ++ (sep ++ x) = dotted ip' ++ (sep ++ y)) : ip = ip' ∧ x = y := by
  simp only [dotted, List.append_assoc] at h
  obtain ⟨h4, h⟩ := showNat_append_inj (by decide) h
  obtain ⟨h3, h⟩ := showNat_append_inj (by decide) h
  obtain ⟨h2, h⟩ := showNat_append_inj (by decide) h
  obtain ⟨h1, h⟩ := showNat_append_inj hsep h
  have hbytes : Iptrans.ofIp ip = Iptrans.ofIp ip' :=
    Iptrans.ext (UInt8.toNat_inj.mp h1) (UInt8.toNat_inj.mp h2) (UInt8.toNat_inj.mp h3)
      (UInt8.toNat_inj.mp h4)
  exact ⟨Iptrans.ofIp_inj hbytes, h⟩

/-- **An end of the connection is read back.** -/
theorem Endpoint.text_inj {e e' : Endpoint} (hsep : ∃ c ∈ sep.head?, isDigit c = false)
    (h : e.text ++ (sep ++ x) = e'.text ++ (sep ++ y)) : e = e' ∧ x = y := by
  obtain ⟨ip, port⟩ := e
  obtain ⟨ip', port'⟩ := e'
  simp only [Endpoint.text, List.append_assoc] at h
  obtain ⟨hip, hrest⟩ := dotted_inj (by decide) h
  obtain ⟨hport, hxy⟩ := showNat_append_inj hsep hrest
  exact ⟨congrArg₂ Endpoint.mk hip (UInt16.toNat_inj.mp hport), hxy⟩

example : Endpoint.text ⟨2147616392, 46581⟩ = ascii "128.2.6.136:46581".toList := by decide

/-- A line is read back. -/
theorem line_inj {w w' : Bytes} (hw : lf ∉ w) (hw' : lf ∉ w')
    (h : w ++ (ascii "\n".toList ++ x) = w' ++ (ascii "\n".toList ++ y)) : w = w' ∧ x = y :=
  Codec.readable_until lf hw hw' (by rw [List.append_assoc, List.append_assoc]; exact h)

/-- The code with the reason behind it. -/
theorem status_inj {m n : Nat} {w w' : Bytes} (hw : ∀ c ∈ w.head?, isDigit c = false)
    (hw' : ∀ c ∈ w'.head?, isDigit c = false) (hlf : lf ∉ w) (hlf' : lf ∉ w')
    (h : showNat m ++ (w ++ (ascii "\n".toList ++ x)) =
      showNat n ++ (w' ++ (ascii "\n".toList ++ y))) : m = n ∧ w = w' ∧ x = y := by
  have hhead : ∀ {v z : Bytes}, (∀ c ∈ v.head?, isDigit c = false) →
      ∀ c ∈ (v ++ (ascii "\n".toList ++ z)).head?, isDigit c = false := by
    intro v z hv c hc
    cases v with
    | nil => exact Option.some.inj hc ▸ (by decide)
    | cons d v => exact hv c hc
  obtain ⟨hmn, hrest⟩ := readable_showNat (hhead hw) (hhead hw') h
  exact ⟨hmn, line_inj hlf hlf' hrest⟩

/-- **A line of a header map is read back.** -/
theorem readable_headerRow :
    Codec.Readable (fun h : Bytes × Bytes => colon ∉ h.1 ∧ lf ∉ h.2) headerRow := by
  rintro ⟨k, v⟩ ⟨k', v'⟩ a b ⟨hk, hv⟩ ⟨hk', hv'⟩ h
  simp only [headerRow, List.append_assoc] at h
  obtain ⟨hkey, hrest⟩ := Codec.readable_until colon hk hk'
    (show k ++ [colon] ++ (ascii "  ".toList ++ (v ++ (ascii "\n".toList ++ a))) =
      k' ++ [colon] ++ (ascii "  ".toList ++ (v' ++ (ascii "\n".toList ++ b))) by
        rw [List.append_assoc, List.append_assoc]
        exact List.append_cancel_left h)
  obtain ⟨hvalue, hab⟩ := line_inj hv hv' (List.append_cancel_left hrest)
  exact ⟨Prod.ext hkey hvalue, hab⟩

/-- **A header map and the bytes behind it are read back.** -/
theorem block_inj (title : Bytes) {m m' : HeaderMap} {mark w w' : Bytes}
    (hm : Rows m) (hm' : Rows m') (htitle : title.head? = some 82)
    (hw : Codec.Before mark w) (hw' : Codec.Before mark w')
    (h : m.toList.flatMap headerRow ++ (title ++ (w ++ (mark ++ x))) =
      m'.toList.flatMap headerRow ++ (title ++ (w' ++ (mark ++ y)))) :
    m = m' ∧ w = w' ∧ x = y := by
  have hnext : ∀ z, (title ++ z).head? ≠ some 9 := by
    intro z
    rw [List.head?_append, htitle]
    show some (82 : UInt8) ≠ some 9
    decide
  obtain ⟨hmap, hrest⟩ := readable_headerRow.rows (t := 9) (fun _ _ => rfl) hm hm' (hnext _)
    (hnext _) h
  obtain ⟨hctx, hxy⟩ := Codec.readable_before mark hw hw'
    (by rw [List.append_assoc, List.append_assoc]; exact List.append_cancel_left hrest)
  exact ⟨Std.ExtTreeMap.toList_inj.mp hmap, hctx, hxy⟩

/-- **The text of a plain record is read back.** -/
theorem readable_text : Codec.Readable Record.Plain Record.text := by
  intro r r' a b hr hr' h
  simp only [Record.text, Record.summary, List.append_assoc] at h
  obtain ⟨hclient, h⟩ := Endpoint.text_inj (by decide) h
  obtain ⟨hserver, h⟩ := Endpoint.text_inj (by decide) h
  obtain ⟨hmethod, h⟩ := showNat_append_inj (by decide) (List.append_cancel_left h)
  obtain ⟨hversion, h⟩ := showNat_append_inj (by decide) h
  obtain ⟨hcode, hnote, h⟩ := status_inj hr.note_digit hr'.note_digit hr.note_lf hr'.note_lf
    (List.append_cancel_left h)
  obtain ⟨hurl, h⟩ := line_inj hr.url_lf hr'.url_lf (List.append_cancel_left h)
  obtain ⟨hreqHeader, hreq, h⟩ := block_inj (ascii "Request Context:\n".toList)
    hr.requestHeader hr'.requestHeader (by decide) hr.requestContext hr'.requestContext
    (by simp only [List.append_assoc]; exact List.append_cancel_left h)
  obtain ⟨hrspHeader, hrsp, h⟩ := block_inj (ascii "Response Context:\n".toList)
    hr.responseHeader hr'.responseHeader (by decide) hr.responseContext hr'.responseContext
    (by simp only [List.append_assoc]; exact h)
  exact ⟨Record.ext hclient hserver (UInt32.toNat_inj.mp hmethod) (UInt32.toNat_inj.mp hversion)
    (UInt32.toNat_inj.mp hcode) hnote hurl hreqHeader hreq hrspHeader hrsp, h⟩

end Reading

end HttpDecoder
