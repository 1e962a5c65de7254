import RustLexer.Command

/-! # Command-line arguments

The options that a list of arguments stands for. Options may come in any order, and what is no option is
the input.
-/

namespace RustLexer.Options

/-- Why arguments stand for no options. -/
inductive ArgumentError
  | unknownOption (argument : String)
  | missingValue (option : String)
  | unknownFormat (format : String)
  | secondInput (argument : String)

def ArgumentError.message : ArgumentError → String
  | unknownOption argument => "unknown option: " ++ argument
  | missingValue option => "option needs a value: " ++ option
  | unknownFormat format => "unknown format: " ++ format
  | secondInput argument => "more than one input: " ++ argument

/-- The UTF-8 bytes of an argument. -/
def argumentBytes (argument : String) : Bytes := argument.toUTF8.toList

/-- Sets the option that takes a value. -/
def setValue (options : Options) (option value : String) : Except ArgumentError Options :=
  if option = "-e" then .ok { options with expression := some (argumentBytes value) }
  else if option = "--edition" then .ok { options with edition := argumentBytes value }
  else if option = "--format" then
    if value = "table" then .ok { options with format := .table }
    else if value = "tokens" then .ok { options with format := .tokens }
    else .error (.unknownFormat value)
  else .error (.unknownOption option)

/-- The options that take a value. -/
def valued : List String := ["-e", "--edition", "--format"]

/-- Reads arguments, with the options that were read before. A value follows its option, as the next
argument or behind an equals sign. -/
def ofArguments (options : Options) : List String → Except ArgumentError Options
  | [] => .ok options
  | argument :: rest =>
      if argument = "--skip-trivia" then ofArguments { options with skipTrivia := true } rest
      else if argument = "--check" then ofArguments { options with check := true } rest
      else if valued.contains argument then
        match rest with
        | [] => .error (.missingValue argument)
        | value :: rest =>
          match options.setValue argument value with
          | .error error => .error error
          | .ok options => ofArguments options rest
      else if argument.startsWith "-" && argument != "-" then
        let chars := argument.toList
        let option := String.ofList (chars.takeWhile (· != '='))
        let value := String.ofList ((chars.dropWhile (· != '=')).drop 1)
        match options.setValue option value with
        | .error error => .error error
        | .ok options => ofArguments options rest
      else if options.input.isEmpty then
        ofArguments { options with input := argumentBytes argument } rest
      else .error (.secondInput argument)

end RustLexer.Options
