import CandCpp.Foundation.Buffer
import Mathlib.Data.List.Basic

/-!
# Textual Internet addresses

`inetPton` reads an address as `inet_pton` does: four decimal octets, or IPv6
groups of hexadecimal digits, `::` for one or more groups of zeros and an IPv4
address in the place of the last two groups.  What it returns are the bytes that
are stored for an accepted text; nothing is stored for the others.
-/

namespace CandCpp.Foundation

inductive AddressFamily where
  | inet
  | inet6
  deriving DecidableEq, Repr

def AddressFamily.size : AddressFamily → Nat
  | .inet => 4
  | .inet6 => 16

namespace InternetAddress

abbrev dot : UInt8 := 46

abbrev colon : UInt8 := 58

/-! ## Dotted quads -/

def IsDigit (byte : UInt8) : Prop := 48 ≤ byte ∧ byte ≤ 57

instance (byte : UInt8) : Decidable (IsDigit byte) :=
  inferInstanceAs (Decidable (_ ∧ _))

def AllDigits (text : Bytes) : Prop := ∀ byte ∈ text, IsDigit byte

instance (text : Bytes) : Decidable (AllDigits text) :=
  List.decidableBAll IsDigit text

def decimal (text : Bytes) : Nat :=
  text.foldl (fun value digit => 10 * value + (digit.toNat - 48)) 0

/-- One to three digits without a leading zero, at most 255. -/
def octet (text : Bytes) : Option UInt8 :=
  if AllDigits text ∧ 1 ≤ text.length ∧ text.length ≤ 3 ∧
      (text.head? = some 48 → text.length = 1) ∧ decimal text ≤ 255 then
    some (UInt8.ofNat (decimal text))
  else none

def sized (size : Nat) (bytes : Bytes) : Option (Buffer size) :=
  if h : bytes.length = size then some ⟨bytes, h⟩ else none

def dottedQuad (text : Bytes) : Option (Buffer 4) :=
  ((text.splitOn dot).mapM octet).bind (sized 4)

/-! ## IPv6 text -/

def hexValue (byte : UInt8) : Option Nat :=
  if 48 ≤ byte ∧ byte ≤ 57 then some (byte.toNat - 48)
  else if 65 ≤ byte ∧ byte ≤ 70 then some (byte.toNat - 55)
  else if 97 ≤ byte ∧ byte ≤ 102 then some (byte.toNat - 87)
  else none

/-- One to four hexadecimal digits stand for two bytes. -/
def hextet (text : Bytes) : Option Bytes := do
  let digits ← text.mapM hexValue
  if 1 ≤ digits.length ∧ digits.length ≤ 4 then
    let value := digits.foldl (fun value digit => 16 * value + digit) 0
    return [UInt8.ofNat (value / 256), UInt8.ofNat value]
  else none

def hextets (groups : List Bytes) : Option Bytes :=
  (groups.mapM hextet).map List.flatten

/-- The last groups of an address, of which the last may be a dotted quad. -/
def lastGroups : List Bytes → Option Bytes
  | [] => some []
  | [last] => hextet last <|> (dottedQuad last).map Buffer.bytes
  | group :: groups => do
      let bytes ← hextet group
      let rest ← lastGroups groups
      return bytes ++ rest

/-- The text in front of the first `::` and the text behind it. -/
def elision : Bytes → Option (Bytes × Bytes)
  | first :: second :: rest =>
      if first = colon ∧ second = colon then some ([], rest)
      else (elision (second :: rest)).map fun (front, back) =>
        (first :: front, back)
  | [] | [_] => none

def groupsOf (text : Bytes) : List Bytes :=
  if text = [] then [] else text.splitOn colon

def ipv6 (text : Bytes) : Option (Buffer 16) :=
  match elision text with
  | none => (lastGroups (text.splitOn colon)).bind (sized 16)
  | some (front, back) => do
      let front ← hextets (groupsOf front)
      let back ← lastGroups (groupsOf back)
      if front.length + back.length < 16 then
        let zeros := List.replicate (16 - (front.length + back.length)) 0
        sized 16 (front ++ zeros ++ back)
      else none

def inetPton (family : AddressFamily) (text : Bytes) :
    Option (Buffer family.size) :=
  match family with
  | .inet => dottedQuad text
  | .inet6 => ipv6 text

example : ((inetPton .inet6 (ascii "::ffff:127.0.0.1")).map Buffer.bytes) =
    some [0, 0, 0, 0, 0, 0, 0, 0, 0, 0, 255, 255, 127, 0, 0, 1] := by decide

/-! ## No text is read by both families -/

theorem exists_mem_splitOn {text : Bytes} {separator byte : UInt8}
    (hmem : byte ∈ text) (hne : byte ≠ separator) :
    ∃ group ∈ text.splitOn separator, byte ∈ group := by
  induction text with
  | nil => simp at hmem
  | cons first text ih =>
      obtain ⟨group, groups, hsplit⟩ :=
        List.exists_cons_of_ne_nil (List.splitOn_ne_nil separator text)
      rw [List.splitOn_cons_eq_if_modifyHead, hsplit]
      rw [hsplit] at ih
      by_cases hfirst : first = separator
      · have htext : byte ∈ text :=
          List.mem_of_ne_of_mem (hfirst ▸ hne) hmem
        obtain ⟨found, hfound, hbyte⟩ := ih htext
        simp only [hfirst, beq_self_eq_true, if_true]
        exact ⟨found, List.mem_cons_of_mem _ hfound, hbyte⟩
      · simp only [beq_eq_false_iff_ne.mpr hfirst, Bool.false_eq_true,
          if_false, List.modifyHead_cons]
        rcases List.mem_cons.mp hmem with rfl | htext
        · exact ⟨_, List.mem_cons_self, List.mem_cons_self⟩
        · obtain ⟨found, hfound, hbyte⟩ := ih htext
          rcases List.mem_cons.mp hfound with rfl | hrest
          · exact ⟨_, List.mem_cons_self, List.mem_cons_of_mem _ hbyte⟩
          · exact ⟨found, List.mem_cons_of_mem _ hrest, hbyte⟩

theorem exists_of_mapM {α β : Type} {read : α → Option β} {items : List α}
    {results : List β} (h : items.mapM read = some results) :
    ∀ item ∈ items, ∃ result, read item = some result := by
  induction items generalizing results with
  | nil => simp
  | cons item items ih =>
      simp only [List.mapM_cons, Option.bind_eq_bind,
        Option.bind_eq_some_iff] at h
      obtain ⟨result, hresult, rest, hrest, -⟩ := h
      exact List.forall_mem_cons.mpr ⟨⟨result, hresult⟩, ih hrest⟩

theorem isDigit_of_octet {text : Bytes} {value : UInt8}
    (h : octet text = some value) : AllDigits text := by
  unfold octet at h
  split at h
  · rename_i hoctet
    exact hoctet.1
  · cases h

theorem colon_notMem_of_dottedQuad {text : Bytes} {address : Buffer 4}
    (h : dottedQuad text = some address) : colon ∉ text := by
  intro hmem
  obtain ⟨octets, hoctets, -⟩ := Option.bind_eq_some_iff.mp h
  have hne : colon ≠ dot := by decide
  obtain ⟨group, hgroup, hcolon⟩ := exists_mem_splitOn hmem hne
  obtain ⟨value, hvalue⟩ := exists_of_mapM hoctets group hgroup
  exact absurd (isDigit_of_octet hvalue colon hcolon) (by decide)

theorem colon_mem_of_elision {text front back : Bytes}
    (h : elision text = some (front, back)) : colon ∈ text := by
  induction text generalizing front with
  | nil => cases h
  | cons first text ih =>
      cases text with
      | nil => cases h
      | cons second rest =>
          rw [elision] at h
          split at h
          · rename_i hcolons
            rw [hcolons.1]
            exact List.mem_cons_self
          · obtain ⟨⟨inner, _⟩, hinner, heq⟩ := Option.map_eq_some_iff.mp h
            cases heq
            exact List.mem_cons_of_mem _ (ih hinner)

theorem length_of_hextet {text bytes : Bytes} (h : hextet text = some bytes) :
    bytes.length = 2 := by
  simp only [hextet, Option.bind_eq_bind, Option.bind_eq_some_iff] at h
  obtain ⟨digits, -, hbytes⟩ := h
  split at hbytes
  · cases hbytes
    rfl
  · cases hbytes

theorem length_of_lastGroups_singleton {text bytes : Bytes}
    (h : lastGroups [text] = some bytes) : bytes.length ≤ 4 := by
  rw [lastGroups] at h
  cases hextets : hextet text with
  | some found =>
      rw [hextets] at h
      cases h
      rw [length_of_hextet hextets]
      decide
  | none =>
      rw [hextets] at h
      obtain ⟨quad, -, rfl⟩ := Option.map_eq_some_iff.mp h
      exact Nat.le_of_eq quad.length_bytes

theorem colon_mem_of_ipv6 {text : Bytes} {address : Buffer 16}
    (h : ipv6 text = some address) : colon ∈ text := by
  unfold ipv6 at h
  split at h
  · by_contra hcolon
    rw [List.splitOn_eq_singleton hcolon] at h
    obtain ⟨bytes, hbytes, hsized⟩ := Option.bind_eq_some_iff.mp h
    have hle := length_of_lastGroups_singleton hbytes
    unfold sized at hsized
    split at hsized
    · omega
    · cases hsized
  · rename_i hfront
    exact colon_mem_of_elision hfront

theorem dottedQuad_eq_none_of_ipv6 {text : Bytes} {address : Buffer 16}
    (h : ipv6 text = some address) : dottedQuad text = none := by
  by_contra hquad
  obtain ⟨quad, hquad⟩ := Option.ne_none_iff_exists'.mp hquad
  exact colon_notMem_of_dottedQuad hquad (colon_mem_of_ipv6 h)

end InternetAddress

end CandCpp.Foundation
