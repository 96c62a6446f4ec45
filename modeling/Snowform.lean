import Snowform.Main
import Snowform.Lexical.Automaton
import Snowform.Lexical.Place
import Snowform.Proofs.Text.Bytes
import Snowform.Proofs.Text.Pieces
import Snowform.Proofs.Text.Trimming
import Snowform.Proofs.Text.Encoding
import Snowform.Proofs.Lexical.Opening
import Snowform.Proofs.Lexical.Lexemes
import Snowform.Proofs.Lexical.Regions
import Snowform.Proofs.Lexical.Simulation
import Snowform.Proofs.Lexical.Tiling
import Snowform.Proofs.Lexical.Joining
import Snowform.Proofs.Lexical.Placement
import Snowform.Proofs.Lexical.Partition
import Snowform.Proofs.Lexical.Clipping
import Snowform.Proofs.Lexical.Rescanning
import Snowform.Proofs.Lexical.Closing
import Snowform.Proofs.Lexical.Veiling
import Snowform.Proofs.Lexical.Masking
import Snowform.Proofs.Lexical.MaskedBytes
import Snowform.Proofs.Ddl.Reading
import Snowform.Proofs.Ddl.TableReading
import Snowform.Proofs.Ddl.Concatenation
import Snowform.Proofs.Lexical.Leaving
import Snowform.Proofs.Lexical.Sources
import Snowform.Proofs.Lexical.Showing
import Snowform.Proofs.Ddl.Clauses
import Snowform.Proofs.Lexical.Enclosing
import Snowform.Proofs.Ddl.Lookalikes
import Snowform.Proofs.Ddl.References
import Snowform.Proofs.Ddl.Shapes
import Snowform.Proofs.Ddl.Slices
import Snowform.Proofs.Text.Words
import Snowform.Proofs.Ddl.Derived
import Snowform.Proofs.Ddl.Counting
import Snowform.Proofs.Conversion
import Snowform.Proofs.Ordered
import Snowform.Proofs.Terraform.Substitution
import Snowform.Proofs.Terraform.Permutation
import Snowform.Proofs.Terraform.Identifiers
import Snowform.Proofs.Terraform.Resources
import Snowform.Proofs.Terraform.Origins
import Snowform.Proofs.Terraform.Inference
import Snowform.Proofs.Text.Lines
import Snowform.Proofs.Hcl.Heredoc
import Snowform.Proofs.Hcl.Blocks
import Snowform.Proofs.Terraform.Sections
import Snowform.Proofs.Terraform.Items
import Snowform.Proofs.Terraform.Dependencies
import Snowform.Proofs.Terraform.Bodies
import Snowform.Proofs.Ddl.QuotedNames
import Snowform.Proofs.Ddl.QuotedStatements
import Snowform.Proofs.Terraform.Mentions
import Snowform.Proofs.Terraform.Selections
import Snowform.Terraform.Wordwise
import Snowform.Proofs.Text.RangeTree
import Snowform.Proofs.Text.Folding
import Snowform.Proofs.Text.Wordwise
import Snowform.Proofs.Terraform.Wordwise
import Snowform.Hcl.Literal
import Snowform.Proofs.Hcl.Literals
import Snowform.Hcl.Outline
import Snowform.Proofs.Hcl.Outlines
import Snowform.Proofs.Terraform.Outlines
import Snowform.Proofs.Terraform.Contents
import Snowform.Proofs.Ddl.Naming
import Snowform.Proofs.Terraform.Chains
import Snowform.Proofs.Terraform.Labels
import Snowform.Hcl.TemplateParts
import Snowform.Proofs.Hcl.TemplateParts
import Snowform.Proofs.Terraform.LiveReferences
import Snowform.Proofs.Terraform.Suffixes
import Snowform.Terraform.Placement
import Snowform.Proofs.Terraform.Placement
import Snowform.Proofs.Terraform.ForeignKeys
import Snowform.Proofs.Text.Listing
import Snowform.Proofs.Lexical.Phrases
import Snowform.Proofs.Lexical.Parentheses
import Snowform.Proofs.Ddl.QuotedLists
import Snowform.Proofs.Ddl.ListedTables
import Snowform.Proofs.Ddl.ListedStatements
import Snowform.Proofs.Text.Respacing
import Snowform.Proofs.Ddl.QuotedReferences
import Snowform.Proofs.Ddl.UnbrokenNames
import Snowform.Proofs.Ddl.ColumnConstraints
import Snowform.Proofs.Files.Paths
import Snowform.Proofs.Files.Trees
import Snowform.Proofs.Files.Listings
import Snowform.Proofs.Files.Folders
import Snowform.Proofs.Lexical.Parting
import Snowform.Proofs.Lexical.Blanking
import Snowform.Proofs.Lexical.Spacing
import Snowform.Proofs.Lexical.Marking
import Snowform.Proofs.Lexical.Revealing
import Snowform.Proofs.Ddl.Steadiness
import Snowform.Proofs.Ddl.SpacedNames
import Snowform.Proofs.Ddl.SpacedColumns
import Snowform.Proofs.Ddl.SpacedConstraints
import Snowform.Proofs.Ddl.SpacedReferences
import Snowform.Proofs.Ddl.SpacedContents
import Snowform.Proofs.Ddl.CommentedClauses
import Snowform.Proofs.Ddl.CommentedTables
import Snowform.Proofs.Ddl.QuotedLiterals
import Snowform.Proofs.Ddl.ColumnLiterals
import Snowform.Proofs.Ddl.BareParts
import Snowform.Proofs.Ddl.CodeEntries
import Snowform.Proofs.Lexical.Fronts
import Snowform.Proofs.Ddl.BodyLiterals
import Snowform.Proofs.Ddl.ProcedureHeaders
import Snowform.Proofs.Ddl.ProcedureBodies
import Snowform.Proofs.Ddl.LiteralParts
import Snowform.Proofs.Ddl.WrittenParameters
import Snowform.Proofs.Ddl.CommentLiterals
import Snowform.Proofs.Lexical.Gaps
import Snowform.Proofs.Lexical.Tags
import Snowform.Proofs.Ddl.CommentedBodies
import Snowform.Proofs.Lexical.Cutting
import Snowform.Proofs.Lexical.Standing
import Snowform.Proofs.Ddl.IntroducingWords
import Snowform.Proofs.Ddl.ViewQueries
import Snowform.Proofs.Lexical.Clearing
import Snowform.Proofs.Ddl.QualifiedNames
import Snowform.Proofs.Ddl.RecognisedHeads
import Snowform.Proofs.Ddl.MissingNames
import Snowform.Proofs.Ddl.DeclaredProcedures
import Snowform.Proofs.Ddl.ClauseSearches
import Snowform.Proofs.Ddl.ClauseOrder
import Snowform.Proofs.Ddl.ConstraintNames
import Snowform.Proofs.Ddl.TypeParameters
import Snowform.Proofs.Hcl.Dedenting
import Snowform.Proofs.Terraform.Additions
import Snowform.Proofs.Lexical.CodeParentheses
import Snowform.Proofs.Ddl.JoinedLists
import Snowform.Hcl.Escapes
import Snowform.Proofs.Hcl.Escapes
