import Mathlib.Data.List.Infix
import TrojanGo.Lib.Table

/-!
# Stored routing rules

What the first four data migrations do to the stored rule texts. Texts are searched from the left,
as the string library does.
-/
namespace TrojanGo.Database

open Lib

/-! ### Texts -/

/-- `strings.Index`, counted in characters. -/
def indexOf (sub : List Char) : List Char → Option Nat
  | [] => if sub = [] then some 0 else none
  | c :: cs => if sub <+: c :: cs then some 0 else (indexOf sub cs).map (· + 1)

/-- `strings.ReplaceAll` for a non-empty text; `skip` counts the characters of a match that
are still to be passed over. -/
def replaceFrom (old new : List Char) : (skip : Nat) → List Char → List Char
  | _, [] => []
  | skip + 1, _ :: cs => replaceFrom old new skip cs
  | 0, c :: cs =>
    if old <+: c :: cs then new ++ replaceFrom old new (old.length - 1) cs
    else c :: replaceFrom old new 0 cs

def replaceAll (value old new : String) : String :=
  String.ofList (replaceFrom old.toList new.toList 0 value.toList)

def contains (value sub : String) : Bool := sub.toList <:+: value.toList

/-- `strings.Replace` with a count of one. -/
def replaceFirst (value old new : String) : String :=
  match indexOf old.toList value.toList with
  | none => value
  | some start => String.ofList
      (value.toList.take start ++ new.toList ++ value.toList.drop (start + old.toList.length))

def trimNewlines (value : List Char) : List Char :=
  (value.reverse.dropWhile fun c => c = '\n').reverse

/-! ### Rules -/

def normalizeLegacyClashRuleValue (value : String) : String :=
  let value := replaceAll value "MATCH,Trojan" "MATCH,🐟 漏网之鱼"
  let value := replaceAll value ",PROXY" ",🌐 节点选择"
  let value := replaceAll value "MATCH,🌐 节点选择" "MATCH,🐟 漏网之鱼"
  replaceAll value "RULE-SET,google,DIRECT" "RULE-SET,google,🌐 节点选择"

def splitLines (value : String) : List String := (value.toList.splitOn '\n').map String.ofList

def joinLines (lines : List String) : String := String.intercalate "\n" lines

def isAIRule (line : String) : Bool := contains line ",🤖 AI 服务" || contains line ",💻 AI 编程"

/-- The rules for AI services go before the first broad rule set, or before the final rule
where there is none. -/
def prioritizeAIRules (rules : String) : String :=
  let lines := splitLines rules
  let aiRules := lines.filter isAIRule
  let remaining := lines.filter fun line => !isAIRule line
  if aiRules = [] then rules
  else
    let broad := remaining.findIdx? fun line =>
      contains line "RULE-SET,google," || contains line "RULE-SET,proxy,"
    match broad.or (remaining.findIdx? fun line => contains line "MATCH,") with
    | none => rules
    | some at_ => joinLines (remaining.take at_ ++ aiRules ++ remaining.drop at_)

def aiRules : String := "  - DOMAIN-SUFFIX,openai.com,🤖 AI 服务
  - DOMAIN-SUFFIX,chatgpt.com,🤖 AI 服务
  - DOMAIN-SUFFIX,oaistatic.com,🤖 AI 服务
  - DOMAIN-SUFFIX,oaiusercontent.com,🤖 AI 服务
  - DOMAIN-SUFFIX,anthropic.com,🤖 AI 服务
  - DOMAIN-SUFFIX,claude.ai,🤖 AI 服务
  - DOMAIN,generativelanguage.googleapis.com,🤖 AI 服务
  - DOMAIN,aistudio.google.com,🤖 AI 服务
  - DOMAIN-SUFFIX,githubcopilot.com,💻 AI 编程
  - DOMAIN-SUFFIX,cursor.com,💻 AI 编程
  - DOMAIN-SUFFIX,windsurf.com,💻 AI 编程
"

def addAIRoutingRulesValue (value : String) : String :=
  prioritizeAIRules <|
    if contains value "🤖 AI 服务" then value
    else if contains value "  - MATCH,🐟 漏网之鱼" then
      replaceFirst value "  - MATCH,🐟 漏网之鱼" (aiRules ++ "  - MATCH,🐟 漏网之鱼")
    else if contains value "- MATCH,🐟 漏网之鱼" then
      replaceFirst value "- MATCH,🐟 漏网之鱼" (aiRules ++ "- MATCH,🐟 漏网之鱼")
    else String.ofList (trimNewlines value.toList) ++ "\n" ++ aiRules ++ "  - MATCH,🐟 漏网之鱼"

def fixLegacyLANCIDRIndentationValue (value : String) : String :=
  replaceAll value "    - IP-CIDR,192.168.0.0/16,DIRECT,no-resolve"
    "  - IP-CIDR,192.168.0.0/16,DIRECT,no-resolve"

/-- The text without the block of a provider that starts with one of the two indentations. -/
def removeRuleProvider (value provider : String) : String :=
  let text := value.toList
  let cut (indent : String) : Option String :=
    let block := (indent ++ provider ++ ":\n    type: http\n").toList
    (indexOf block text).map fun start =>
      match indexOf "\n\n  ".toList (text.drop (start + block.length)) with
      | none => String.ofList (trimNewlines (text.take start))
      | some length => String.ofList (text.take start ++ text.drop (start + block.length + length))
  ((cut "\n\n  ").or (cut "  ")).getD value

def removeUnusedRuleProvidersValue (value : String) : String :=
  ["gfw", "greatfire", "tld-not-cn", "lancidr"].foldl removeRuleProvider value

/-! ### The configuration table -/

/-- Rewrite a configuration value, if there is one. -/
def updateConfig (key : String) (f : String → String) (configs : Table String String) :
    Table String String :=
  match configs.lookup key with
  | none => configs
  | some value => if f value = value then configs else configs.insert key (f value)

def normalizeLegacyClashRuleGroups : Table String String → Table String String :=
  updateConfig "clash_rules" normalizeLegacyClashRuleValue

def addAIRoutingRules : Table String String → Table String String :=
  updateConfig "clash_rules" addAIRoutingRulesValue

def fixLegacyLANCIDRIndentation : Table String String → Table String String :=
  updateConfig "clash_rules" fixLegacyLANCIDRIndentationValue

def removeUnusedRuleProviders : Table String String → Table String String :=
  updateConfig "clash_rule_providers" removeUnusedRuleProvidersValue

end TrojanGo.Database
