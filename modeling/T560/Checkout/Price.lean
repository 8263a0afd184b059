import T560.Foundation.Pattern
import T560.Foundation.Preference
import T560.Js.Ascii

/-!
# Prices in product texts

`parsePrice` looks for an amount behind a currency sign, then for an amount in front of a currency
code. Both patterns write the digits of an amount as one to three digits and groups of three behind
commas, and neither asks what follows. Amounts are exact decimals.
-/

namespace T560.Checkout

open Foundation (isWordChar wordAt)
open Js (isDigit isSpace decimalValue trimChars)
open Preference

structure PriceQuote where
  amount : ℚ
  currency : String
  display : String
  deriving DecidableEq

section Patterns

/-- A character of a pattern under the `i` flag, in upper case. -/
def letter (x : Char) : Char → Bool := fun c => c.toUpper == x

def word (s : String) : Matcher Char := items (s.toList.map letter)

def CURRENCY_SIGNS : List String := ["C$", "CA$", "CAD$", "US$", "USD$", "$", "€", "£"]

def currencySign : Matcher Char := either (CURRENCY_SIGNS.map word)

/-- `,[0-9]{3}` -/
def digitGroup : Matcher Char := items [(· == ','), isDigit, isDigit, isDigit]

/-- `[0-9]{1,3}` -/
def leadingDigits : Matcher Char := seq (item isDigit) (upTo (item isDigit) 2)

/-- `\.[0-9]{2}` -/
def cents : Matcher Char := items [(· == '.'), isDigit, isDigit]

/-- `[0-9]{1,3}(?:,[0-9]{3})*(?:\.[0-9]{2})?` -/
def priceDigits : Matcher Char := seq leadingDigits (seq (many digitGroup) (upTo cents 1))

def PRICE_TOKEN : Matcher Char := seq currencySign (seq (many (item isSpace)) priceDigits)

def CURRENCY_CODES : List String := ["CAD", "USD", "EUR", "GBP"]

def wordBoundary : Matcher Char := side fun prev next => wordAt prev != wordAt next

def currencyCode : Matcher Char := seq (either (CURRENCY_CODES.map word)) wordBoundary

/-- What stands behind the first group of `PRICE_TRAILING`. -/
def trailingCode : Matcher Char := seq (many (item isSpace)) currencyCode

def PRICE_TRAILING : Matcher Char := seq priceDigits trailingCode

end Patterns

section Parsing

/-- `Number(text)` of digits with at most one point between them. -/
def numberOf (text : List Char) : ℚ :=
  let fraction := (text.dropWhile (· ≠ '.')).drop 1
  decimalValue (text.takeWhile (· ≠ '.')) + (decimalValue fraction : ℚ) / 10 ^ fraction.length

/-- Two digits. -/
def pad2 (n : Nat) : List Char := [Nat.digitChar (n / 10), Nat.digitChar (n % 10)]

/-- `amount.toFixed(2)` below 10^21: the nearest number of hundredths, the larger one of two. -/
def toFixed2 (amount : ℚ) : String :=
  let hundredths := (|amount| * 100 + 1 / 2).floor.toNat
  (if amount < 0 then "-" else "") ++ toString (hundredths / 100) ++ "." ++
    String.ofList (pad2 (hundredths % 100))

def toDisplayPrice (currency : String) (amount : Js.Num) : String :=
  match amount with
  | .fin q => if currency = "$" then "$" ++ toFixed2 q else currency ++ toFixed2 q
  | _ => ""

/-- `value.toUpperCase()` for a currency sign or code. -/
def upper (text : List Char) : String := String.ofList (text.map Char.toUpper)

/-- The sign of a token in upper case. -/
def signOf (token : List Char) : String :=
  match exec currencySign none token with
  | some (s, e) => upper (between s e)
  | none => "$"

def currencyOfSign (currencyRaw : String) : String :=
  if currencyRaw = "CAD$" ∨ currencyRaw = "CA$" then "C$"
  else if currencyRaw = "US$" ∨ currencyRaw = "USD$" then "US$"
  else currencyRaw

def currencyOfCode (trailingCurrency : String) : String :=
  if trailingCurrency = "CAD" then "C$"
  else if trailingCurrency = "USD" then "US$"
  else if trailingCurrency = "EUR" then "EUR "
  else if trailingCurrency = "GBP" then "GBP "
  else trailingCurrency

def quote (amount : ℚ) (currency : String) : Option PriceQuote :=
  if 0 < amount ∧ amount < 1000000 then
    some ⟨amount, currency, toDisplayPrice currency (.fin amount)⟩
  else none

/-- The first attempt of `parsePrice`. -/
def parsePrefixed (source : List Char) : Option PriceQuote :=
  (exec PRICE_TOKEN none source).bind fun (s, e) =>
    let token := trimChars (between s e)
    quote (numberOf (token.filter fun c => isDigit c || c == '.')) (currencyOfSign (signOf token))

/-- The groups of the first match of `PRICE_TRAILING`: the digits, which end at the first place
from which the rest matches, and the code. -/
def trailingGroups (source : List Char) : Option (List Char × List Char) :=
  (exec PRICE_TRAILING none source).bind fun (s, _) =>
    (priceDigits s).findSome? fun mid =>
      (many (item isSpace) mid).findSome? fun front =>
        (currencyCode front).head?.map fun e => (between s mid, between front e)

/-- The second attempt of `parsePrice`. -/
def parseTrailing (source : List Char) : Option PriceQuote :=
  (trailingGroups source).bind fun (digits, code) =>
    quote (numberOf (digits.filter (· ≠ ','))) (currencyOfCode (upper code))

def parsePrice (text : String) : Option PriceQuote :=
  (parsePrefixed text.toList).or (parseTrailing text.toList)

end Parsing

end T560.Checkout
