import HttpDecoder.Receiver
import HttpDecoder.Flow

/-!
# Segments, environments and conversions that can be computed with

The inputs of `Process` in their simplest form, for runs that are to be evaluated.

* `segment` — the packet that carries given bytes from one endpoint to another,
  with the fields the decoder reads back (`segment_src`, `segment_payload`).
* `Env.granting` — an environment whose clock stands still and whose allocator
  always answers.
* `Boost.decimal` — the conversions of `boost::lexical_cast` on plain decimal
  texts.
-/

namespace HttpDecoder

open CLib

/-! ## Byte order -/

/-- `ntohs` swaps the two bytes. -/
theorem toNat_ntohs (x : UInt16) : (ntohs x).toNat = x.toNat % 256 * 256 + x.toNat / 256 := by
  have hx := x.toNat_lt
  unfold ntohs
  rw [UInt16.toNat_ofNat']
  omega

/-- `ntohl` reverses the four bytes. -/
theorem toNat_ntohl {x : UInt32} {a b c d : Nat} (ha : a < 256) (hb : b < 256) (hc : c < 256)
    (hd : d < 256) (h : x.toNat = a + 256 * b + 65536 * c + 16777216 * d) :
    (ntohl x).toNat = d + 256 * c + 65536 * b + 16777216 * a := by
  have h₀ : x.toNat % 256 = a := by omega
  have h₁ : x.toNat / 256 % 256 = b := by omega
  have h₂ : x.toNat / 65536 % 256 = c := by omega
  have h₃ : x.toNat / 16777216 = d := by omega
  unfold ntohl
  rw [UInt32.toNat_ofNat', h₀, h₁, h₂, h₃]
  omega

/-- Swapping the two bytes twice changes nothing. -/
@[simp] theorem ntohs_ntohs (x : UInt16) : ntohs (ntohs x) = x := by
  have hx := x.toNat_lt
  have hswap := toNat_ntohs x
  have hback := toNat_ntohs (ntohs x)
  apply UInt16.toNat_inj.mp
  have hlow : (ntohs x).toNat % 256 = x.toNat / 256 := by omega
  have hhigh : (ntohs x).toNat / 256 = x.toNat % 256 := by omega
  omega

/-- Reversing the four bytes twice changes nothing. -/
@[simp] theorem ntohl_ntohl (x : UInt32) : ntohl (ntohl x) = x := by
  have hx := x.toNat_lt
  obtain ⟨a, b, c, d, ha, hb, hc, hd, hsum⟩ : ∃ a b c d, a < 256 ∧ b < 256 ∧ c < 256 ∧
      d < 256 ∧ x.toNat = a + 256 * b + 65536 * c + 16777216 * d :=
    ⟨x.toNat % 256, x.toNat / 256 % 256, x.toNat / 65536 % 256, x.toNat / 16777216,
      by omega, by omega, by omega, by omega, by omega⟩
  apply UInt32.toNat_inj.mp
  rw [toNat_ntohl hd hc hb ha (toNat_ntohl ha hb hc hd hsum), hsum]

/-! ## Segments -/

/-- The packet that carries `data` from `src` to `dst`. -/
def segment (src dst : Endpoint) (seqNo : UInt32) (data : Bytes) (fin : Bool) :
    CFormatPacket where
  iphdr :=
    { ihl := 5
      totLen := ntohs (UInt16.ofNat (40 + data.length))
      protocol := CFormatPacket.ipprotoTcp
      saddr := ntohl src.ip
      daddr := ntohl dst.ip }
  tcphdr :=
    { source := ntohs src.port
      dest := ntohs dst.port
      seq := ntohl seqNo
      ackSeq := 0
      doff := 5
      fin := fin
      rst := false }
  data := fun i => data.getD i 0
  dataLen := data.length
  time := ⟨1, 0⟩

section Segment

variable (src dst : Endpoint) (seqNo : UInt32) (data : Bytes) (fin : Bool)

@[simp] theorem segment_src : (segment src dst seqNo data fin).src = src := by
  show (⟨ntohl (ntohl src.ip), ntohs (ntohs src.port)⟩ : Endpoint) = src
  rw [ntohl_ntohl, ntohs_ntohs]

@[simp] theorem segment_dst : (segment src dst seqNo data fin).dst = dst := by
  show (⟨ntohl (ntohl dst.ip), ntohs (ntohs dst.port)⟩ : Endpoint) = dst
  rw [ntohl_ntohl, ntohs_ntohs]

@[simp] theorem segment_conn : (segment src dst seqNo data fin).conn = s(src, dst) := by
  rw [CFormatPacket.conn, segment_src, segment_dst]

@[simp] theorem segment_seqNo : (segment src dst seqNo data fin).seqNo = seqNo :=
  ntohl_ntohl seqNo

@[simp] theorem segment_closes : (segment src dst seqNo data fin).closes = fin :=
  Bool.or_false fin

@[simp] theorem segment_dataLen : (segment src dst seqNo data fin).dataLen = data.length := rfl

variable {data} in
/-- A segment carries its bytes. -/
theorem segment_payload (h : data.length < 2 ^ 64) :
    (segment src dst seqNo data fin).payload = data := by
  have hsize : (segment src dst seqNo data fin).dataSize = data.length := by
    show sizeT data.length = data.length
    rw [sizeT_of_nonneg (Int.natCast_nonneg _) (by exact_mod_cast h), Int.toNat_natCast]
  rw [CFormatPacket.payload, hsize]
  refine Mem.holds_iff_get.mpr fun i hi => ?_
  show data.getD (0 + i) 0 = data[i]
  rw [Nat.zero_add, List.getD_eq_getElem _ _ hi]

end Segment

/-! ## Environments -/

/-- Every request is granted, with zeroed memory. -/
def SesAlloc.granting : SesAlloc :=
  ⟨⟨some fun _ => 0, some fun _ => 0⟩, ⟨some fun _ => 0, some fun _ => 0⟩⟩

/-- The clock stands at 0, every allocation is granted, and a new session finds
`seqNo` in its memory. -/
def Env.granting (seqNo : UInt32) : Env where
  timeCheck := 0
  timeFind := 0
  timeCreate := 0
  new := ⟨seqNo, 0, SesAlloc.granting, SesAlloc.granting⟩
  append := some fun _ => 0
  parse := ⟨0, SesAlloc.granting⟩
  sweep _ _ := ⟨0, SesAlloc.granting⟩

theorem SesAlloc.granted_granting : SesAlloc.granting.Granted := ⟨rfl, rfl, rfl, rfl⟩

/-- `Env.granting` grants everything. -/
theorem Env.granted_granting (seqNo : UInt32) : (Env.granting seqNo).Granted where
  bufs := SesAlloc.granted_granting
  reset := SesAlloc.granted_granting
  append := rfl
  parse := SesAlloc.granted_granting
  sweep _ _ := SesAlloc.granted_granting

/-- A segment in such an environment. -/
def arrival (src dst : Endpoint) (seqNo : UInt32) (data : Bytes) (fin : Bool) : Arrival :=
  ⟨segment src dst seqNo data fin, Env.granting 0⟩

/-- The call of `Process` it leads to. -/
def sends (src dst : Endpoint) (seqNo : UInt32) (data : Bytes) (fin : Bool) : Call :=
  (arrival src dst seqNo data fin).call

/-- Its clock is below the interval of the sweep. -/
theorem sends_quiet (src dst : Endpoint) (seqNo : UInt32) (data : Bytes) (fin : Bool) :
    (sends src dst seqNo data fin).env.timeCheck < timeoutCheckDur := by
  show (0 : Int) < 120
  decide

/-- What the session objects hold before they are handed out. -/
def blankSes : Nat → CSession := fun _ =>
  CSessionHashTable.newSession 0 (Env.granting 0).new (segment ⟨0, 0⟩ ⟨0, 0⟩ 0 [] false)
    ⟨0, 0, 0, 0⟩

/-! ## Conversions -/

/-- The value of a string of decimal digits, `none` for every other string. -/
def decimalValue (s : Bytes) : Option Nat :=
  if s ≠ [] ∧ s.all fun c => decide (48 ≤ c ∧ c ≤ 57) then
    some (s.foldl (fun n c => 10 * n + (c.toNat - 48)) 0)
  else none

/-- `boost::lexical_cast` on digit strings and on texts made of a digit, a dot and a
digit.  A `float` is kept as the number of its tenths. -/
def Boost.decimal : Boost where
  Flt := Nat
  castFloat
    | [a, dot, b] => if dot = 46 then decimalValue [a, b] else none
    | _ => none
  timesTen := UInt32.ofNat
  castUInt32 s := (decimalValue s).filter (· < 2 ^ 32) |>.map UInt32.ofNat

end HttpDecoder
