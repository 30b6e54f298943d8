import Munch.Lexicon.Scanner
import Munch.Main
import Munch.Nfa.Path
import Munch.Proofs.Dfa.Subset
import Munch.Proofs.Pattern.Prefixes
import Munch.Proofs.Dfa.Scan
import Munch.Proofs.Nfa.Edit
import Munch.Proofs.Nfa.Part
import Munch.Proofs.Nfa.Join
import Munch.Proofs.Pattern.Leaf
import Munch.Proofs.Pattern.Automaton
import Munch.Proofs.Regex
import Munch.Proofs.PatternSet.Product
import Munch.Proofs.PatternSet
import Munch.Proofs.Pool
import Munch.Proofs.Pool.Size
import Munch.Proofs.Split
import Munch.Proofs.Split.Parallel
import Munch.Proofs.Dfa.Paths
import Munch.Proofs.Pattern.Live
import Munch.Proofs.Rejection
import Munch.Proofs.Split.Run
import Munch.Proofs.Lexicon
import Munch.Proofs.Lexicon.Scanner
import Munch.Proofs.Dfa.Order
import Munch.Proofs.Dfa.States
import Munch.Proofs.Nfa.Rename
import Munch.Proofs.Pattern.Relocate
import Munch.Proofs.PatternSet.States
import Munch.Proofs.PatternSet.Reorder
import Munch.Listing.Entry
import Munch.Proofs.Nfa.Trail
import Munch.Proofs.Pool.Rounds
import Munch.Proofs.Tokenizer
import Munch.Proofs.Text.Escape
import Munch.Proofs.Listing
import Munch.Proofs.PatternSet.Single
import Munch.Proofs.Tokenizer.Longest
import Munch.Proofs.Tokenizer.Restart
import Munch.Proofs.Regex.Search
import Munch.Proofs.Nfa.Block
import Munch.Proofs.Nfa.WellFormed
import Munch.Proofs.Pattern.Block
import Munch.Proofs.Pattern.Placement
import Munch.Proofs.Pattern.Rewrite
import Munch.Proofs.Pattern.WellFormed
import Munch.Proofs.Pattern.Derived
import Munch.Proofs.Split.Join
import Munch.Proofs.Tokenizer.Feed
import Munch.Proofs.PatternSet.Keywords
import Munch.Proofs.Pattern.Room
import Munch.Proofs.PatternSet.Alternation
import Munch.Proofs.CommandLine.Split
import Munch.Proofs.Text.Numeral
import Munch.Proofs.Delimiter
import Munch.Proofs.StateSet.History
import Munch.Proofs.Pool.Shares
