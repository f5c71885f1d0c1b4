set_option autoImplicit false

namespace ByNeed

inductive Keyword where
  | print
  | branch
  | consequence
  | elseBranch
  | otherwise
  | finish
  | iterate
  | among
  | select
  | option
  | record
  | field
  | create
  | conjunction
  | disjunction
  | negation
  | binding
deriving Repr, DecidableEq

namespace Keyword

def all : List Keyword :=
  [print, branch, consequence, elseBranch, otherwise, finish, iterate, among, select, option,
    record, field, create, conjunction, disjunction, negation, binding]

def spelling : Keyword → String
  | print => "rintperb"
  | branch => "if"
  | consequence => "henterb"
  | elseBranch => "utifberb"
  | otherwise => "lseerb"
  | finish => "ndeerb"
  | iterate => "orferb"
  | among => "in"
  | select => "atchmerb"
  | option => "asecerb"
  | record => "hingterb"
  | field => "rgaerb"
  | create => "ewnerb"
  | conjunction => "ndaerb"
  | disjunction => "or"
  | negation => "otnerb"
  | binding => "let"

def ofSpelling? (word : String) : Option Keyword :=
  all.find? fun keyword => keyword.spelling = word

theorem mem_all (keyword : Keyword) : keyword ∈ all := by
  cases keyword <;> decide

theorem ofSpelling?_spelling (keyword : Keyword) :
    ofSpelling? keyword.spelling = some keyword := by
  cases keyword <;> decide

theorem spelling_of_ofSpelling? {word : String} {keyword : Keyword}
    (found : ofSpelling? word = some keyword) : keyword.spelling = word := by
  simpa using List.find?_some found

end Keyword

def booleanSpelling : Bool → String
  | true => "rueterb"
  | false => "alseferb"

def booleanOfSpelling? (word : String) : Option Bool :=
  [true, false].find? fun value => booleanSpelling value = word

end ByNeed
