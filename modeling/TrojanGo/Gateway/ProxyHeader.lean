import Mathlib.Algebra.Order.Ring.Nat
import TrojanGo.Tunnel.Connections

/-!
# The header in front of a forwarded connection

The data plane reads the line with a buffer that is just large enough for one; this is where the
addresses, in their text form, have to be short.
-/
namespace TrojanGo.Gateway

open Lib Tunnel List

/-! ### Numbers and addresses as text -/

def digit (d : Nat) : UInt8 := UInt8.ofNat (if d < 10 then 48 + d else 87 + d)

/-- A number in a base, with at most one digit more than given. -/
def numeral (base : Nat) : Nat → Nat → Bytes
  | 0, n => [digit n]
  | k + 1, n => if n < base then [digit n] else numeral base k (n / base) ++ [digit (n % base)]

def decimal (n : Nat) : Bytes := numeral 10 18 n

/-- An IPv4 address. -/
def dotted (ip : IP) : Bytes := ([46] : Bytes).intercalate (ip.map fun b => decimal b.toNat)

/-- The eight groups of an IPv6 address. -/
def groups (ip : IP) : List Nat := (List.range 8).map fun i =>
  (ip.getD (2 * i) 0).toNat * 256 + (ip.getD (2 * i + 1) 0).toNat

/-- The first of the longest runs of zeros, if it has two groups at least, from its start to its
end. -/
def zeroRun (groups : List Nat) : Nat × Nat :=
  (List.range 8).foldl (fun run i =>
    let length := ((groups.drop i).takeWhile (· = 0)).length
    if 2 ≤ length ∧ run.2 - run.1 < length then (i, i + length) else run) (255, 255)

/-- The groups from one on, and two colons for the run of zeros. -/
def colons (groups : List Nat) (run : Nat × Nat) : Nat → Nat → Bytes
  | 0, _ => []
  | k + 1, i =>
    if 8 ≤ i then []
    else if i = run.1 then
      [58, 58] ++ if 8 ≤ run.2 then []
        else numeral 16 3 (groups.getD run.2 0) ++ colons groups run k (run.2 + 1)
    else
      (if 0 < i then [58] else []) ++ numeral 16 3 (groups.getD i 0) ++ colons groups run k (i + 1)

/-- `net.IP.String`. -/
def ipText (ip : IP) : Bytes :=
  if ip = [] then ascii "<nil>"
  else
    match to4 ip with
    | some short => dotted short
    | none =>
      if ip.length = 16 then colons (groups ip) (zeroRun (groups ip)) 8 0
      else ascii "?" ++ ip.flatMap fun b => [digit (b.toNat / 16), digit (b.toNat % 16)]

/-! ### The header -/

inductive NetAddr where
  | tcp (a : TCPAddr)
  | other

/-- What `writeProxyHeader` writes. -/
def writeProxyHeader : NetAddr → NetAddr → Bytes
  | .tcp src, .tcp dst =>
    if src.ip = [] ∨ dst.ip = [] then ascii "PROXY UNKNOWN" ++ crlf
    else
      let family :=
        if (to4 src.ip).isSome ∧ (to4 dst.ip).isSome then ascii "TCP4" else ascii "TCP6"
      ascii "PROXY " ++ family ++ ascii " " ++ ipText src.ip ++ ascii " " ++ ipText dst.ip ++
        ascii " " ++ decimal src.port ++ ascii " " ++ decimal dst.port ++ crlf
  | _, _ => ascii "PROXY UNKNOWN" ++ crlf

/-! ### What the texts look like -/

/-- No blank and no control character; the smallest one that occurs is the dot. -/
def Visible (text : Bytes) : Prop := ∀ b ∈ text, 46 ≤ b

instance (text : Bytes) : Decidable (Visible text) :=
  List.decidableBAll (fun b => 46 ≤ b) text

theorem Visible.append {s t : Bytes} (first : Visible s) (second : Visible t) : Visible (s ++ t) := by
  grind [Visible]

variable {text : Bytes} {ip long : IP}

theorem Visible.not_space (visible : Visible text) : ∀ b ∈ text, isBlank b = false := by
  intro b mem
  have large := visible b mem
  simp only [isBlank, UInt8.le_iff_toNat_le, ← UInt8.toNat_inj, UInt8.reduceToNat,
    decide_eq_false_iff_not] at large ⊢
  omega

theorem digit_toNat {d : Nat} (small : d < 16) :
    (digit d).toNat = if d < 10 then 48 + d else 87 + d := by
  rw [digit, UInt8.toNat_ofNat']
  split <;> omega

theorem digit_visible {d : Nat} (small : d < 16) : 46 ≤ digit d := by
  rw [UInt8.le_iff_toNat_le, digit_toNat small]
  show 46 ≤ _
  split <;> omega

section Numerals

variable {base k n : Nat} (two : 2 ≤ base) (sixteen : base ≤ 16)
include two sixteen

theorem numeral_visible (fits : n < base ^ (k + 1)) : Visible (numeral base k n) := by
  induction k generalizing n with
  | zero =>
    intro b mem
    rw [Nat.zero_add, Nat.pow_one] at fits
    rw [numeral, mem_singleton] at mem
    rw [mem]
    exact digit_visible (by omega)
  | succ k ih =>
    rw [numeral]
    split
    · intro b mem
      rw [mem_singleton.mp mem]
      exact digit_visible (by omega)
    · refine (ih ?_).append fun b mem => ?_
      · rw [Nat.div_lt_iff_lt_mul (by omega), ← Nat.pow_succ]
        exact fits
      · rw [mem_singleton.mp mem]
        have := Nat.mod_lt n (show 0 < base by omega)
        exact digit_visible (by omega)

omit sixteen in
theorem numeral_length {j : Nat} (fits : n < base ^ (j + 1)) : (numeral base k n).length ≤ j + 1 := by
  induction k generalizing n j with
  | zero => simp [numeral]
  | succ k ih =>
    rw [numeral]
    split
    · simp
    next large =>
      cases j with
      | zero =>
        rw [Nat.zero_add, Nat.pow_one] at fits
        omega
      | succ j =>
        have fewer : n / base < base ^ (j + 1) := by
          rw [Nat.div_lt_iff_lt_mul (by omega), ← Nat.pow_succ]
          exact fits
        have := ih fewer
        simp only [length_append, length_singleton]
        omega

end Numerals

theorem numeral_ne_nil (base k n : Nat) : numeral base k n ≠ [] := by
  cases k with
  | zero => simp [numeral]
  | succ k =>
    rw [numeral]
    split <;> simp

/-! ### Ports -/

theorem digits_append {n d : Nat} (read : digits UInt8.toNat text = some n) (small : d < 10) :
    digits UInt8.toNat (text ++ [digit d]) = some (n * 10 + d) := by
  have value := digit_toNat (show d < 16 by omega)
  rw [if_pos small] at value
  cases text with
  | nil => cases read
  | cons b text =>
    unfold digits at read ⊢
    rw [cons_append]
    simp only [foldl_cons, foldl_append, foldl_nil] at read ⊢
    rw [read]
    simp [value]
    omega

theorem digits_numeral {k n : Nat} (fits : n < 10 ^ (k + 1)) :
    digits UInt8.toNat (numeral 10 k n) = some n := by
  have single : ∀ d, d < 10 → digits UInt8.toNat [digit d] = some d := by
    intro d small
    have value := digit_toNat (show d < 16 by omega)
    rw [if_pos small] at value
    simp [digits, value]
    omega
  induction k generalizing n with
  | zero => exact single n fits
  | succ k ih =>
    rw [numeral]
    split
    next small => exact single n small
    · have fewer : n / 10 < 10 ^ (k + 1) := by
        rw [Nat.div_lt_iff_lt_mul (by omega), ← Nat.pow_succ]
        exact fits
      rw [digits_append (ih fewer) (Nat.mod_lt n (by omega))]
      congr 1
      omega

/-- A text of digits has no sign. -/
theorem atoi_visible (visible : Visible text) :
    atoi UInt8.toNat text = (digits UInt8.toNat text).map Int.ofNat := by
  cases text with
  | nil => rfl
  | cons sign text =>
    have large := UInt8.le_iff_toNat_le.mp (visible sign mem_cons_self)
    simp only [UInt8.reduceToNat] at large
    rw [atoi, if_neg (by omega), if_neg (by omega)]

theorem proxyProtocolPort_decimal {port : Nat} (valid : 1 ≤ port ∧ port ≤ 65535) :
    proxyProtocolPort (decimal port) = some port := by
  have fits : port < 10 ^ (18 + 1) := by omega
  have visible := numeral_visible (show 2 ≤ 10 by decide) (show 10 ≤ 16 by decide) fits
  have inside : ¬ ((port : Int) < 1 ∨ (port : Int) > 65535) := by omega
  simp only [proxyProtocolPort, decimal, atoi_visible visible, digits_numeral fits, Option.map_some,
    Int.ofNat_eq_natCast, if_neg inside, Int.toNat_natCast]

/-! ### Addresses -/

/-- A text that is short enough to stand in a header twice. -/
structure Short (text : Bytes) : Prop where
  visible : Visible text
  filled : text ≠ []
  length : text.length ≤ 41

theorem byte_short (b : UInt8) :
    Visible (decimal b.toNat) ∧ (decimal b.toNat).length ≤ 3 ∧ decimal b.toNat ≠ [] := by
  have small := b.toNat_lt
  refine ⟨numeral_visible (by decide) (by decide) (by omega), ?_, numeral_ne_nil _ _ _⟩
  exact numeral_length (by decide) (show b.toNat < 10 ^ (2 + 1) by omega)

theorem dot_visible : Visible [46] := by
  intro b mem
  rw [mem_singleton.mp mem]
  decide

theorem dotted_short (length : ip.length = 4) : Short (dotted ip) := by
  obtain ⟨a, b, c, d, rfl⟩ : ∃ a b c d, ip = [a, b, c, d] := by
    match ip, length with
    | [a, b, c, d], _ => exact ⟨a, b, c, d, rfl⟩
  have text : dotted [a, b, c, d] = decimal a.toNat ++ ([46] ++ (decimal b.toNat ++
      ([46] ++ (decimal c.toNat ++ ([46] ++ decimal d.toNat))))) := by
    simp [dotted, intercalate]
  obtain ⟨seen, size, some⟩ := byte_short a
  obtain ⟨seen1, size1, -⟩ := byte_short b
  obtain ⟨seen2, size2, -⟩ := byte_short c
  obtain ⟨seen3, size3, -⟩ := byte_short d
  rw [text]
  refine ⟨seen.append (dot_visible.append (seen1.append (dot_visible.append
    (seen2.append (dot_visible.append seen3))))), by simp [some], ?_⟩
  simp only [length_append, length_singleton]
  omega

section Colons

variable {gs : List Nat} {run : Nat × Nat} (small : ∀ i, gs.getD i 0 < 16 ^ 4)
include small

theorem group_visible (i : Nat) : Visible (numeral 16 3 (gs.getD i 0)) :=
  numeral_visible (by decide) (by decide) (small i)

theorem group_length (i : Nat) : (numeral 16 3 (gs.getD i 0)).length ≤ 4 :=
  numeral_length (by decide) (small i)

theorem colons_visible (k i : Nat) : Visible (colons gs run k i) := by
  have colon : Visible [58] := by
    intro b mem
    rw [mem_singleton.mp mem]
    decide
  have nothing : Visible [] := fun b mem => by cases mem
  induction k generalizing i with
  | zero => exact nothing
  | succ k ih =>
    rw [colons]
    split
    · exact nothing
    split
    · refine (colon.append colon).append ?_
      split
      · exact nothing
      · exact (group_visible small _).append (ih _)
    · refine Visible.append (Visible.append ?_ (group_visible small _)) (ih _)
      split
      · exact colon
      · exact nothing

theorem colons_length (ordered : run.1 ≤ run.2) (k i : Nat) :
    (colons gs run k i).length ≤ 5 * (8 - i) + if i ≤ run.1 then 1 else 0 := by
  induction k generalizing i with
  | zero => simp [colons]
  | succ k ih =>
    rw [colons]
    split
    · simp
    next inside =>
      have here := group_length small i
      have next := ih (i + 1)
      split
      next start =>
        split
        · simp only [length_append, length_cons, length_nil]
          omega
        next more =>
          have behind := group_length small run.2
          have rest := ih (run.2 + 1)
          rw [if_neg (by omega)] at rest
          rw [if_pos (by omega)]
          simp only [length_append, length_cons, length_nil]
          omega
      next elsewhere => grind

end Colons

theorem groups_small (ip : IP) (i : Nat) : (groups ip).getD i 0 < 16 ^ 4 := by
  rw [getD_eq_getElem?_getD, groups, getElem?_map]
  cases (range 8)[i]? with
  | none => simp
  | some j =>
    have high := (ip.getD (2 * j) 0).toNat_lt
    have low := (ip.getD (2 * j + 1) 0).toNat_lt
    simp only [Option.map_some, Option.getD_some]
    omega

theorem zeroRun_ordered (gs : List Nat) : (zeroRun gs).1 ≤ (zeroRun gs).2 := by
  unfold zeroRun
  refine foldlRecOn (motive := fun run : Nat × Nat => run.1 ≤ run.2) _ _ (Nat.le_refl 255) ?_
  intro run ordered i _
  simp only
  split
  · exact Nat.le_add_right _ _
  · exact ordered

theorem colons_short (ip : IP) : Short (colons (groups ip) (zeroRun (groups ip)) 8 0) := by
  refine ⟨colons_visible (groups_small ip) 8 0, ?_, ?_⟩
  · rw [colons]
    split
    · omega
    · split
      · simp
      · simp [numeral_ne_nil]
  · have := colons_length (groups_small ip) (zeroRun_ordered (groups ip)) 8 0
    split at this <;> omega

theorem to16_cases (valid : to16 ip = some long) :
    ip.length = 4 ∧ long = v4InV6 ++ ip ∨ ip.length = 16 ∧ long = ip := by
  grind [to16]

/-- Both forms of an address belong to the same family. -/
theorem to4_to16 (valid : to16 ip = some long) : to4 long = to4 ip := by
  rcases to16_cases valid with ⟨short, rfl⟩ | ⟨-, rfl⟩
  · simp [to4, short, v4InV6]
  · rfl

theorem ipText_short (valid : to16 ip = some long) : Short (ipText ip) := by
  have filled : ip ≠ [] := by
    rintro rfl
    cases valid
  rw [ipText, if_neg filled]
  cases family : to4 ip with
  | some short => exact dotted_short (to4_length family)
  | none =>
    rcases to16_cases valid with ⟨short, -⟩ | ⟨length, -⟩
    · rw [to4_self short] at family
      cases family
    · simp only [if_pos length]
      exact colons_short ip

example : ipText [32, 1, 13, 184, 0, 0, 0, 0, 0, 0, 0, 0, 0, 0, 0, 1] = ascii "2001:db8::1" := by
  decide

/-! ### The header is read back -/

/-- Words with blanks between them are taken apart again. -/
theorem fields_words {words : List Bytes} (some : words ≠ []) (visible : ∀ w ∈ words, Visible w)
    (filled : ∀ w ∈ words, w ≠ []) : fields (([32] : Bytes).intercalate words) = words := by
  have splits : (([32] : Bytes).intercalate words).splitOnP isBlank = words := by
    induction words with
    | nil => exact absurd rfl some
    | cons w words ih =>
      obtain ⟨here, visible⟩ := forall_mem_cons.mp visible
      obtain ⟨-, filled⟩ := forall_mem_cons.mp filled
      cases words with
      | nil =>
        rw [intercalate_singleton]
        exact splitOnP_eq_singleton here.not_space
      | cons w' words =>
        rw [intercalate_cons_cons, append_assoc, singleton_append,
          splitOnP_append_cons_of_forall_mem here.not_space 32 (by decide),
          ih (by simp) visible filled]
  rw [fields, splits]
  exact filter_eq_self.mpr fun w mem => by simpa using filled w mem

theorem newline_not_mem_words {words : List Bytes} (visible : ∀ w ∈ words, Visible w) :
    newline ∉ ([32] : Bytes).intercalate words := by
  induction words with
  | nil => simp
  | cons w words ih =>
    obtain ⟨here, visible⟩ := forall_mem_cons.mp visible
    have absent : newline ∉ w := fun mem => absurd (here newline mem) (by decide)
    cases words with
    | nil =>
      rw [intercalate_singleton]
      exact absent
    | cons w' words =>
      rw [intercalate_cons_cons, mem_append, mem_append]
      rintro ((inWord | blank) | later)
      · exact absent inWord
      · exact absurd blank (by decide)
      · exact ih visible later

/-- The words of the line. -/
def words (src dst : TCPAddr) : List Bytes :=
  [ascii "PROXY", if (to4 src.ip).isSome then ascii "TCP4" else ascii "TCP6", ipText src.ip,
    ipText dst.ip, decimal src.port, decimal dst.port]

/-- The line without its end. -/
def headerLine (src dst : TCPAddr) : Bytes := ([32] : Bytes).intercalate (words src dst)

/-- Addresses of one family, and ports that are none but ports. -/
structure Forwarded (src dst : TCPAddr) (source destination : IP) : Prop where
  source : to16 src.ip = some source
  destination : to16 dst.ip = some destination
  family : (to4 src.ip).isSome = (to4 dst.ip).isSome
  sourcePort : 1 ≤ src.port ∧ src.port ≤ 65535
  destinationPort : 1 ≤ dst.port ∧ dst.port ≤ 65535

namespace Forwarded

variable {src dst : TCPAddr} {source destination : IP}
  (forwarded : Forwarded src dst source destination)
include forwarded

theorem write_eq : writeProxyHeader (.tcp src) (.tcp dst) = headerLine src dst ++ crlf := by
  have present : ¬ (src.ip = [] ∨ dst.ip = []) := by
    rintro (none | none)
    · have := forwarded.source
      rw [none] at this
      cases this
    · have := forwarded.destination
      rw [none] at this
      cases this
  have same : ((to4 src.ip).isSome ∧ (to4 dst.ip).isSome) ↔ (to4 src.ip).isSome := by
    rw [← forwarded.family, and_self]
  have blank : ascii " " = [32] := by decide
  have proxy : ascii "PROXY " = ascii "PROXY" ++ [32] := by decide
  simp only [writeProxyHeader, if_neg present, same, blank, proxy, headerLine, words,
    intercalate_cons_cons, intercalate_singleton, append_assoc]

theorem words_visible : ∀ w ∈ words src dst, Visible w ∧ w ≠ [] := by
  have ports : ∀ port, port ≤ 65535 → Visible (decimal port) ∧ decimal port ≠ [] := fun port small =>
    ⟨numeral_visible (by decide) (by decide) (by omega), numeral_ne_nil _ _ _⟩
  have source := ipText_short forwarded.source
  have destination := ipText_short forwarded.destination
  simp only [words, forall_mem_cons, not_mem_nil, false_imp_iff, implies_true, and_true]
  refine ⟨by decide, ?_, ⟨source.visible, source.filled⟩, ⟨destination.visible, destination.filled⟩,
    ports _ forwarded.sourcePort.2, ports _ forwarded.destinationPort.2⟩
  split <;> decide

theorem length_le : (headerLine src dst ++ crlf).length ≤ proxyProtocolV1MaxHeader := by
  have ports : ∀ port, port ≤ 65535 → (decimal port).length ≤ 5 := fun port small =>
    numeral_length (by decide) (show port < 10 ^ (4 + 1) by omega)
  have first := ports _ forwarded.sourcePort.2
  have second := ports _ forwarded.destinationPort.2
  have source := (ipText_short forwarded.source).length
  have destination := (ipText_short forwarded.destination).length
  have proxy : (ascii "PROXY").length = 5 := by decide
  have family : (if (to4 src.ip).isSome then ascii "TCP4" else ascii "TCP6").length = 4 := by
    split <;> decide
  simp only [headerLine, words, intercalate_cons_cons, intercalate_singleton,
    length_append, proxy, family, crlf, length_cons, length_nil,
    proxyProtocolV1MaxHeader]
  omega

theorem newline_absent : newline ∉ headerLine src dst ++ [13] := by
  rw [mem_append]
  rintro (inLine | inEnd)
  · exact newline_not_mem_words (fun w mem => (forwarded.words_visible w mem).1) inLine
  · exact absurd inEnd (by decide)

theorem fields_eq : fields (headerLine src dst) = words src dst :=
  fields_words (by simp [words]) (fun w mem => (forwarded.words_visible w mem).1)
    fun w mem => (forwarded.words_visible w mem).2

theorem parse {parseIP : Bytes → Option IP} (conn : TCPConn)
    (sourceText : parseIP (ipText src.ip) = some source)
    (destinationText : parseIP (ipText dst.ip) = some destination) :
    parseHeader parseIP conn (headerLine src dst ++ crlf) =
      .ok (⟨source, src.port⟩, ⟨destination, dst.port⟩) := by
  have passes : ¬ ((headerLine src dst ++ crlf).length > proxyProtocolV1MaxHeader ∨
      ¬ crlf <:+ headerLine src dst ++ crlf) := by
    have := forwarded.length_le
    simp only [suffix_append, not_true, or_false]
    omega
  have line : (headerLine src dst ++ crlf).take ((headerLine src dst ++ crlf).length - 2) =
      headerLine src dst := by
    simp [crlf]
  have sourceFamily := to4_to16 forwarded.source
  have destinationFamily := to4_to16 forwarded.destination
  rw [parseHeader, if_neg passes, line, forwarded.fields_eq]
  simp only [words, sourceText, destinationText, sourceFamily, destinationFamily,
    ← Option.not_isSome, ← forwarded.family, proxyProtocolPort_decimal forwarded.sourcePort,
    proxyProtocolPort_decimal forwarded.destinationPort]
  -- by the family, which is that of both addresses
  by_cases short : (to4 src.ip).isSome
  · have differ : ascii "TCP4" ≠ ascii "TCP6" := by decide
    simp [short, differ]
  · have differ : ascii "TCP6" ≠ ascii "TCP4" := by decide
    simp [short, differ]

end Forwarded

/-- The data plane takes the header off, and reads on behind it: it reports the ends of the
client's connection, and its reads return what follows the header, however it arrives. -/
theorem readProxyProtocolV1_writeProxyHeader {parseIP : Bytes → Option IP} {src dst : TCPAddr}
    {source destination : IP} (forwarded : Forwarded src dst source destination)
    (sourceText : parseIP (ipText src.ip) = some source)
    (destinationText : parseIP (ipText dst.ip) = some destination) {conn : TCPConn}
    (listener : isLoopback conn.localAddr.ip) (origin : isLoopback conn.remoteAddr.ip)
    {rest : Bytes}
    (arrives : conn.segments.content = writeProxyHeader (.tcp src) (.tcp dst) ++ rest) :
    ∃ wire, readProxyProtocolV1 parseIP conn =
        .ok ⟨wire, ⟨destination, dst.port⟩, ⟨source, src.port⟩⟩ ∧
      ∀ sizes : List Nat, (∀ n ∈ sizes, 0 < n) →
        (Wire.read.many wire sizes).1 <+: rest ∧
          (rest.length ≤ sizes.length → (Wire.read.many wire sizes).1 = rest) := by
  have accepted := forwarded.parse conn sourceText destinationText
  have ends : headerLine src dst ++ crlf = headerLine src dst ++ [13] ++ [newline] := by
    simp [crlf, newline]
  rw [forwarded.write_eq, ends] at arrives
  rw [ends] at accepted
  obtain ⟨wire, ran, left, ready⟩ :=
    readProxyProtocolV1_accepts listener origin forwarded.newline_absent accepted arrives
  refine ⟨wire, ran, fun sizes positive => ?_⟩
  obtain ⟨order, all⟩ := Read.many_lawful Wire.lawful positive fun _ => ready
  rw [left] at order all
  refine ⟨⟨_, order⟩, fun enough => ?_⟩
  rw [all enough, append_nil] at order
  exact order

theorem readProxyProtocolV1_writeProxyHeader_mapped :
    let src : TCPAddr := ⟨[192, 0, 2, 1], 65535⟩
    let dst : TCPAddr := ⟨v4InV6 ++ [198, 51, 100, 7], 443⟩
    let parseIP := fun text => if text = ascii "192.0.2.1" then some (v4InV6 ++ [192, 0, 2, 1])
      else if text = ascii "198.51.100.7" then some (v4InV6 ++ [198, 51, 100, 7]) else none
    let rest : Bytes := [22, 3, 1]
    let conn : TCPConn :=
      { segments := .whole (writeProxyHeader (.tcp src) (.tcp dst) ++ rest)
        localAddr := ⟨[127, 0, 0, 1], 10443⟩, remoteAddr := ⟨[127, 0, 0, 1], 50000⟩ }
    ∃ wire, readProxyProtocolV1 parseIP conn =
        .ok ⟨wire, ⟨dst.ip, 443⟩, ⟨v4InV6 ++ src.ip, 65535⟩⟩ ∧
      ∀ sizes : List Nat, (∀ n ∈ sizes, 0 < n) →
        (Wire.read.many wire sizes).1 <+: rest ∧
          (rest.length ≤ sizes.length → (Wire.read.many wire sizes).1 = rest) := by
  intro src dst parseIP rest conn
  have forwarded : Forwarded src dst (v4InV6 ++ src.ip) dst.ip :=
    ⟨by decide, by decide, by decide, by decide, by decide⟩
  exact readProxyProtocolV1_writeProxyHeader forwarded (by decide) (by decide) (by decide)
    (by decide) (by decide)

end TrojanGo.Gateway
