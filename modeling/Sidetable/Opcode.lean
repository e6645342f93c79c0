import Sidetable.Hex

/-!
# Opcodes

Mnemonics, ranges and operand counts of opcode bytes. The bytes `0xfb` to `0xfe` are followed by a
second opcode number.
-/
namespace Sidetable.Opcode

/-- Mnemonics of runs of consecutive opcodes, each with its first opcode. -/
def nameRuns : List (Nat × List String) := [
  (0x00, ["unreachable", "nop", "block", "loop", "if", "else", "try", "catch", "throw", "rethrow",
    "throw_ref", "end", "br", "br_if", "br_table", "return", "call", "call_indirect",
    "return_call", "return_call_indirect", "call_ref", "return_call_ref"]),
  (0x18, ["delegate", "catch_all"]),
  (0x1a, ["drop", "select", "select"]),
  (0x1f, ["try_table"]),
  (0x20, ["local.get", "local.set", "local.tee", "global.get", "global.set", "table.get",
    "table.set"]),
  (0x28, ["i32.load", "i64.load", "f32.load", "f64.load", "i32.load8_s", "i32.load8_u",
    "i32.load16_s", "i32.load16_u", "i64.load8_s", "i64.load8_u", "i64.load16_s", "i64.load16_u",
    "i64.load32_s", "i64.load32_u"]),
  (0x36, ["i32.store", "i64.store", "f32.store", "f64.store", "i32.store8", "i32.store16",
    "i64.store8", "i64.store16", "i64.store32"]),
  (0x3f, ["memory.size", "memory.grow"]),
  (0x41, ["i32.const", "i64.const", "f32.const", "f64.const"]),
  (0x45, ["i32.eqz", "i32.eq", "i32.ne", "i32.lt_s", "i32.lt_u", "i32.gt_s", "i32.gt_u",
    "i32.le_s", "i32.le_u", "i32.ge_s", "i32.ge_u"]),
  (0x50, ["i64.eqz", "i64.eq", "i64.ne", "i64.lt_s", "i64.lt_u", "i64.gt_s", "i64.gt_u",
    "i64.le_s", "i64.le_u", "i64.ge_s", "i64.ge_u"]),
  (0x5b, ["f32.eq", "f32.ne", "f32.lt", "f32.gt", "f32.le", "f32.ge"]),
  (0x61, ["f64.eq", "f64.ne", "f64.lt", "f64.gt", "f64.le", "f64.ge"]),
  (0x67, ["i32.clz", "i32.ctz", "i32.popcnt", "i32.add", "i32.sub", "i32.mul", "i32.div_s",
    "i32.div_u", "i32.rem_s", "i32.rem_u", "i32.and", "i32.or", "i32.xor", "i32.shl", "i32.shr_s",
    "i32.shr_u", "i32.rotl", "i32.rotr"]),
  (0x79, ["i64.clz", "i64.ctz", "i64.popcnt", "i64.add", "i64.sub", "i64.mul", "i64.div_s",
    "i64.div_u", "i64.rem_s", "i64.rem_u", "i64.and", "i64.or", "i64.xor", "i64.shl", "i64.shr_s",
    "i64.shr_u", "i64.rotl", "i64.rotr"]),
  (0x8b, ["f32.abs", "f32.neg", "f32.ceil", "f32.floor", "f32.trunc", "f32.nearest", "f32.sqrt",
    "f32.add", "f32.sub", "f32.mul", "f32.div", "f32.min", "f32.max", "f32.copysign"]),
  (0x99, ["f64.abs", "f64.neg", "f64.ceil", "f64.floor", "f64.trunc", "f64.nearest", "f64.sqrt",
    "f64.add", "f64.sub", "f64.mul", "f64.div", "f64.min", "f64.max", "f64.copysign"]),
  (0xa7, ["i32.wrap_i64", "i32.trunc_f32_s", "i32.trunc_f32_u", "i32.trunc_f64_s",
    "i32.trunc_f64_u", "i64.extend_i32_s", "i64.extend_i32_u", "i64.trunc_f32_s",
    "i64.trunc_f32_u", "i64.trunc_f64_s", "i64.trunc_f64_u", "f32.convert_i32_s",
    "f32.convert_i32_u", "f32.convert_i64_s", "f32.convert_i64_u", "f32.demote_f64",
    "f64.convert_i32_s", "f64.convert_i32_u", "f64.convert_i64_s", "f64.convert_i64_u",
    "f64.promote_f32"]),
  (0xbc, ["i32.reinterpret_f32", "i64.reinterpret_f64", "f32.reinterpret_i32",
    "f64.reinterpret_i64"]),
  (0xc0, ["i32.extend8_s", "i32.extend16_s", "i64.extend8_s", "i64.extend16_s", "i64.extend32_s"]),
  (0xd0, ["ref.null", "ref.is_null", "ref.func", "ref.eq", "ref.as_non_null", "br_on_null",
    "br_on_non_null"])]

def miscNames : List String := [
  "i32.trunc_sat_f32_s", "i32.trunc_sat_f32_u", "i32.trunc_sat_f64_s", "i32.trunc_sat_f64_u",
  "i64.trunc_sat_f32_s", "i64.trunc_sat_f32_u", "i64.trunc_sat_f64_s", "i64.trunc_sat_f64_u",
  "memory.init", "data.drop", "memory.copy", "memory.fill", "table.init", "elem.drop",
  "table.copy", "table.grow", "table.size", "table.fill"]

def family : UInt8 → Option String
  | 0xfb => some "gc"
  | 0xfc => some "misc"
  | 0xfd => some "simd"
  | 0xfe => some "atomic"
  | _ => none

def isPrefixed (op : UInt8) : Bool :=
  (family op).isSome

def name? (op : UInt8) : Option String :=
  nameRuns.findSome? fun (first, names) =>
    if first ≤ op.toNat then names[op.toNat - first]? else none

/-- Mnemonic of an instruction; one without a name of its own is shown by its numbers. -/
def name (op : UInt8) (sub : UInt32) : String :=
  match family op with
  | some fam =>
    match (if op = 0xfc then miscNames[sub.toNat]? else none) with
    | some text => text
    | none => fam ++ ".0x" ++ Hex.padded 2 sub.toNat
  | none => (name? op).getD ("0x" ++ Hex.padded 2 op.toNat)

def within (lo hi op : UInt8) : Bool :=
  lo ≤ op && op ≤ hi

def isLoad (op : UInt8) : Bool :=
  within 0x28 0x35 op

def isStore (op : UInt8) : Bool :=
  within 0x36 0x3e op

def isNumeric (op : UInt8) : Bool :=
  within 0x45 0xc4 op

def numericOperands (op : UInt8) : Option Nat :=
  if op = 0x45 || op = 0x50 then some 1
  else if within 0x46 0x4f op || within 0x51 0x66 op then some 2
  else if within 0x67 0x69 op || within 0x79 0x7b op then some 1
  else if within 0x6a 0x78 op || within 0x7c 0x8a op then some 2
  else if within 0x8b 0x91 op || within 0x99 0x9f op then some 1
  else if within 0x92 0x98 op || within 0xa0 0xa6 op then some 2
  else if within 0xa7 0xc4 op then some 1
  else none

end Sidetable.Opcode
