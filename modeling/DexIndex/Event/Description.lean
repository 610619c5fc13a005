import DexIndex.Event.Basic
import DexIndex.Text.Number
import DexIndex.Text.Printable

/-!
# Descriptions of events

A description names every field of an event in full; it stands in messages about rows that do not
fit together. Texts are quoted, and what cannot be printed is written by its number.
-/

namespace DexIndex

namespace Text

/-- How a character is written within quotes. -/
def quoteChar (c : Char) : String :=
  match c with
  | '"' => "\\\""
  | '\\' => "\\\\"
  | '\n' => "\\n"
  | '\r' => "\\r"
  | '\t' => "\\t"
  | '\x00' => "\\0"
  | c => if isPrintable c then String.singleton c else "\\u\x7b" ++ hex c.toNat ++ "\x7d"

def quote (s : String) : String := "\"" ++ String.join (s.toList.map quoteChar) ++ "\""

/-- A name and its fields in braces. -/
def describeRecord (name : String) (fields : List (String × String)) : String :=
  name ++ " \x7b " ++ ", ".intercalate (fields.map fun (field, v) => field ++ ": " ++ v) ++ " \x7d"

end Text

open Text

def PublicKey.describe (k : PublicKey) : String := s!"Pubkey({k})"

def Side.describe : Side → String
  | bid => "Bid"
  | ask => "Ask"

def OrderType.describe : OrderType → String
  | limit => "Limit"
  | immediateOrCancel => "ImmediateOrCancel"
  | postOnly => "PostOnly"

def Fill.describe (f : Fill) : String :=
  describeRecord "Fill" [
    ("side", f.side.describe),
    ("maker", toString f.maker),
    ("price", toString f.price),
    ("native_qty_released", toString f.nativeQtyReleased),
    ("native_qty_paid", toString f.nativeQtyPaid),
    ("native_fee_or_rebate", toString f.nativeFeeOrRebate),
    ("fee_tier", toString f.feeTier),
    ("client_order_id", toString f.clientOrderId),
    ("trx_hash", quote f.trxHash)]

def Order.describe (o : Order) : String :=
  describeRecord "Order" [
    ("side", o.side.describe),
    ("price", toString o.price),
    ("quantity", toString o.quantity),
    ("order_type", o.orderType.describe),
    ("client_order_id", toString o.clientOrderId),
    ("trx_hash", quote o.trxHash),
    ("fills", "[" ++ ", ".intercalate (o.fills.map Fill.describe) ++ "]")]

def InstructionRef.describe (i : InstructionRef) : String :=
  describeRecord "InstructionRef" [
    ("trx_hash", quote i.trxHash),
    ("slot_number", toString i.place.slot),
    ("trx_idx", toString i.place.trx),
    ("inst_idx", toString i.place.inst)]

def EventKind.describe : EventKind → String
  | newOrder order trader =>
    describeRecord "NewOrder" [("order", order.describe), ("trader", trader.describe)]
  | fill account f =>
    describeRecord "Fill" [("trading_account", account.describe), ("fill", f.describe)]
  | orderExecuted => "OrderExecuted"
  | orderCancelled i => describeRecord "OrderCancelled" [("instruction", i.describe)]
  | orderClosed i => describeRecord "OrderClosed" [("instruction", i.describe)]

end DexIndex
