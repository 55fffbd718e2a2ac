import Mathlib.Algebra.Order.Ring.Nat
import TrojanGo.Texts

/-!
# Field validators

Request texts come out of a JSON decoder, so they are valid UTF-8. Lengths in bytes are told apart
from lengths in characters as the source does.
-/
namespace TrojanGo.Panel

def maxNodeNameLen : Nat := 128

def maxHostnameLen : Nat := 253

def maxWSPathLen : Nat := 512

def maxUsernameLen : Nat := 64

def hasControlChars (s : String) : Bool :=
  s.toList.any fun r => r.toNat < 0x20 ∨ r.toNat = 0x7f ∨ 0x80 ≤ r.toNat ∧ r.toNat ≤ 0x9f ∨
    r.toNat = 0x2028 ∨ r.toNat = 0x2029

/-- `%q` of a one-character text; the control characters are rejected before. -/
def quoteRune (c : Char) : String :=
  if c = '"' then "\"\\\"\"" else if c = '\\' then "\"\\\\\"" else "\"" ++ c.toString ++ "\""

/-- The first byte of a character, read as a character of its own. -/
def leadByte (c : Char) : Char :=
  if c.toNat < 0x80 then c
  else if c.toNat < 0x800 then Char.ofNat (0xc0 + c.toNat / 0x40)
  else if c.toNat < 0x10000 then Char.ofNat (0xe0 + c.toNat / 0x1000)
  else Char.ofNat (0xf0 + c.toNat / 0x40000)

/-- The characters a label may contain. -/
def isLabelChar (c : Char) : Bool :=
  'a' ≤ c ∧ c ≤ 'z' ∨ 'A' ≤ c ∧ c ≤ 'Z' ∨ '0' ≤ c ∧ c ≤ '9' ∨ c = '-' ∨ c = '_'

def validateLabel (label : List Char) : Except String Unit := do
  if label = [] then throw "域名包含空标签"
  if (label.map Char.utf8Size).sum > 63 then throw "域名标签超过 63 个字符"
  if label.head? = some '-' ∨ label.getLast? = some '-' then throw "域名标签不能以连字符开头或结尾"
  -- the source walks over bytes; a character outside ASCII fails at its first one
  match label.find? fun c => !isLabelChar c with
  | some c => throw ("域名包含非法字符 " ++ quoteRune (leadByte c))
  | none => return ()

def trimSuffix (c : Char) (text : List Char) : List Char :=
  if text.getLast? = some c then text.dropLast else text

def trimPrefix (c : Char) (text : List Char) : List Char :=
  if text.head? = some c then text.tail else text

def validateHostname (host : String) : Except String Unit := do
  let trimmed := trimSuffix '.' host.toList
  if trimmed = [] then throw "域名为空"
  (trimmed.splitOn '.').forM validateLabel

def validateNodeAddress (parseIP : String → Bool) (address : String) : Except String Unit := do
  if address = "" then throw "节点地址不能为空"
  if address ≠ trimSpace address then throw "节点地址不能包含首尾空白字符"
  if hasControlChars address then throw "节点地址包含非法控制字符"
  if address.utf8ByteSize > maxHostnameLen then
    throw s!"节点地址不能超过 {maxHostnameLen} 个字符"
  -- an address in brackets is unwrapped before it is taken for a literal
  if parseIP (String.ofList (trimSuffix ']' (trimPrefix '[' address.toList))) then return ()
  match validateHostname address with
  | .error reason => throw ("节点地址必须是合法的 IP 或域名: " ++ reason)
  | .ok () => return ()

def validateWSPath (path : String) : Except String Unit := do
  if path = "" then return ()
  if path.toList.head? ≠ some '/' then throw "WebSocket 路径必须以 / 开头"
  if hasControlChars path then throw "WebSocket 路径包含非法控制字符"
  if path.utf8ByteSize > maxWSPathLen then throw s!"WebSocket 路径不能超过 {maxWSPathLen} 个字符"
  if path.toList.any fun c => c = ' ' ∨ c = '\t' then throw "WebSocket 路径不能包含空格或制表符"
  if path.toList.any fun c => c = '?' ∨ c = '#' then throw "WebSocket 路径不能包含查询串或片段标识"

def htmlMetaChars : List Char := ['<', '>', '"', '\'', '&']

def validateNodeName (name : String) : Except String Unit := do
  if name = "" then throw "节点名称不能为空"
  if hasControlChars name then throw "节点名称包含非法控制字符"
  if name.length > maxNodeNameLen then throw s!"节点名称不能超过 {maxNodeNameLen} 个字符"
  if trimSpace name = "" then throw "节点名称不能只包含空白字符"
  match name.toList.find? fun c => c ∈ htmlMetaChars with
  | some c => throw ("节点名称不能包含字符 " ++ quoteRune c)
  | none => return ()

def validateUsername (username : String) : Except String Unit := do
  if username = "" then throw "用户名不能为空"
  if username.length > maxUsernameLen then throw s!"用户名不能超过 {maxUsernameLen} 个字符"
  if hasControlChars username then throw "用户名包含非法控制字符"
  username.toList.forM fun r => do
    if isSpace r then throw "用户名不能包含空白字符"
    if r ∈ ['/', '\\', ':', '*', '?', '"', '<', '>', '|'] then
      throw ("用户名不能包含字符 " ++ quoteRune r)

def validateQuota (quota : Int) : Except String Unit :=
  if quota < -1 then .error "配额必须为 -1（不限）或不小于 0 的字节数" else .ok ()

end TrojanGo.Panel
