import Grimoire.Text.CodePoint

/-!
# The sample spell

A calculator that asks for two numbers and an operator.
-/

namespace Grimoire

/-- The lines of the sample spell, a calculator. -/
def sampleLines : List String :=
  ["shout the many cries of \"Enter in first number: \"",
    "shout the many cries of",
    "    get the character from the spell 10",
    "create a new spell named first with the power of",
    "    find the source of the messages",
    "shout the many cries of \"Enter in second number: \"",
    "shout the many cries of",
    "    get the character from the spell 10",
    "create a new spell named second with the power of",
    "    find the source of the messages",
    "shout the many cries of \"Enter in operator (+ - * /): \"",
    "shout the many cries of",
    "    get the character from the spell 10",
    "create a new spell named op with the power of",
    "    find the source of the messages",
    "cast only if the spell is op equal to \"+\" is true do",
    "    shout the many cries of",
    "        combine the power of first and second",
    "else do",
    "    cast only if the spell is op equal to \"-\" is true do",
    "        shout the many cries of",
    "            remove the power of second from first",
    "    else do",
    "        cast only if the spell is op equal to \"*\" is true do",
    "            shout the many cries of",
    "                duplicate the power of first second times",
    "        else do",
    "            cast only if the spell is op equal to \"/\" is true do",
    "                shout the many cries of",
    "                    split the power of first second times",
    "            else do",
    "                shout the many cries of \"Invalid Operator!\"",
    "            done",
    "        done",
    "    done",
    "done"]

/-- The sample spell as the command shows it. -/
def sampleSpell : Text := sampleLines.flatMap fun line => Text.ofString line ++ "\n"

end Grimoire
